import Zeos.Switch.Gate
import Zeos.Switch.Contexts

/-!
# The first run of a child

What `sys_fork` and `sys_clone` write on the kernel stack of a new process, and the way
from there through `ret_from_fork` and the gate to user mode.
-/

namespace Zeos.Switch

open Zeos.Library

universe u

/-! ## The two calls -/

/-- `KERNEL_STACK_SIZE`. -/
def kernelStackSize : UInt32 := 1024

/-- `&u->stack[i]`. -/
def stackWord (u i : UInt32) : UInt32 := u + 4 * i

/-- `current()`. -/
def current (m : Machine) : UInt32 := m.reg .esp &&& 0xfffff000

/-- `copy_data(start, dest, sizeof(union task_union))`. -/
def copyUnion (start dest : UInt32) (m : Machine) : Machine :=
  { m with
    mem := fun address =>
      if (address - dest).toNat < 4096 ∧ (address - dest).toNat % 4 = 0 then
        m.mem (start + (address - dest))
      else m.mem address }

/-- How `sys_fork` prepares the stack of `uChild`; `get_ebp` has no frame of its own. -/
def forkFrame (uChild retFromFork : UInt32) (m : Machine) : Machine :=
  let pilaPadre := stackWord (current m) kernelStackSize
  let ebpPadre := m.reg .ebp
  let offset := (pilaPadre - ebpPadre) / 4
  let m := m.write (stackWord uChild (kernelStackSize - offset - 1)) 0
  let m := m.write (stackWord uChild (kernelStackSize - offset)) retFromFork
  m.write (uChild + kernelEspOffset) (stackWord uChild (kernelStackSize - offset - 1))

/-- How `sys_clone(function, stack)` does. -/
def cloneFrame (uChild retFromFork : UInt32) (m : Machine) : Machine :=
  let function := m.mem (m.reg .ebp + 8)
  let stack := m.mem (m.reg .ebp + 12)
  let m := m.write (stackWord uChild (kernelStackSize - 2)) stack
  let m := m.write (stackWord uChild (kernelStackSize - 5)) function
  let m := m.write (stackWord uChild (kernelStackSize - 19)) 0
  let m := m.write (stackWord uChild (kernelStackSize - 18)) retFromFork
  m.write (uChild + kernelEspOffset) (stackWord uChild (kernelStackSize - 19))

/-- The calls that make a process. -/
inductive NewProcess where
  | sysFork
  | sysClone
  deriving DecidableEq

def NewProcess.prepare (call : NewProcess) : UInt32 → UInt32 → Machine → Machine :=
  match call with
  | .sysFork => forkFrame
  | .sysClone => cloneFrame

/-- `ret_from_fork` up to `ret`. -/
def retFromForkCode : List Instr := prolog 0 ++ .movImm 0 .eax :: epilog

/-- Where the dynamic link of the called function is in the page. -/
def linkOffset : Nat := 4024

/-- Where the stack of a child begins. -/
def childOffset : Nat := 4020

variable {Process : Type u} {code : SwitchCode} {unions : Unions code Process}
  {parent child q : Process} {m m' : Machine} {ws : List UInt32} {link retFromFork : UInt32}
  {gate : GateCode} {locals : Nat}

/-- The statements that are left out write queues, page tables, frames and fields of
PCBs other than `kernel_esp`, and the stack below the frame of the call. -/
structure Aside (unions : Unions code Process) (parent child : Process)
    (m m' : Machine) : Prop where
  esp : m'.reg .esp = m.reg .esp
  ebp : m'.reg .ebp = m.reg .ebp
  ownStack : ∀ k, linkOffset ≤ k → k < 4096 →
    m'.mem (slot (unions.base parent) k) = m.mem (slot (unions.base parent) k)
  childStack : ∀ k, childOffset ≤ k → k < 4096 →
    m'.mem (slot (unions.base child) k) = m.mem (slot (unions.base child) k)
  kernelEsp : m'.mem (unions.base child + kernelEspOffset) =
    m.mem (unions.base child + kernelEspOffset)
  others : ∀ q, q ≠ parent → q ≠ child → unions.Kept q m m'

/-- A call that succeeds, from its entry to its return. -/
inductive NewProcess.Run (unions : Unions code Process) (parent child : Process)
    (retFromFork : UInt32) (locals : Nat) (call : NewProcess) (entry : Machine) :
    Cpu → Prop where
  | returns {before copied prepared : Machine} :
      Aside unions parent child (entry.run (prolog locals)) before →
      Aside unions parent child (copyUnion (current before) (unions.base child) before) copied →
      Aside unions parent child (call.prepare (unions.base child) retFromFork copied) prepared →
      Run unions parent child retFromFork locals call entry
        (ret ((prepared.setReg .eax (prepared.mem (unions.base child))).run epilog))

/-! ## Addresses -/

theorem slot_sub_base (base : UInt32) {k : Nat} (inside : k < 4096) :
    (slot base k - base).toNat = k := by
  unfold slot
  rw [add_sub_cancel_left, UInt32.toNat_ofNat']
  exact Nat.mod_eq_of_lt (by omega)

/-- An address outside the page of the copy. -/
theorem slot_sub_other {base other : UInt32} (aligned : PageAligned base)
    (otherAligned : PageAligned other) (apart : base ≠ other) {k : Nat} (inside : k < 4096) :
    ¬ (slot base k - other).toNat < 4096 := by
  intro near
  have same : slot base k = slot other (slot base k - other).toNat := by
    unfold slot
    rw [UInt32.ofNat_toNat, add_comm other, sub_add_cancel]
  exact apart (slot_inj aligned otherAligned inside near same).1

/-- The distance from the dynamic link to the end of the stack. -/
theorem fork_offset (base : UInt32) :
    (stackWord base kernelStackSize - slot base linkOffset) / 4 = 18 := by
  have whole : stackWord base kernelStackSize = slot base linkOffset + 72 := by
    rw [show (72 : UInt32) = UInt32.ofNat 72 from rfl, slot_add]
    rfl
  rw [whole, add_sub_cancel_left]
  rfl

theorem slot_ne {base : UInt32} (aligned : PageAligned base) {i j : Nat} (first : i < 4096)
    (second : j < 4096) (different : i ≠ j) : slot base i ≠ slot base j := fun same =>
  different (slot_inj aligned aligned first second same).2

/-! ## What is on the two stacks -/

theorem copyUnion_child (start dest : UInt32) (m : Machine) {k : Nat} (inside : k < 4096)
    (isWord : k % 4 = 0) : (copyUnion start dest m).mem (slot dest k) = m.mem (slot start k) := by
  have distance := slot_sub_base dest inside
  have back : slot dest k - dest = UInt32.ofNat k := add_sub_cancel_left _ _
  change (if _ then m.mem (start + (slot dest k - dest)) else _) = _
  rw [if_pos ⟨by omega, by omega⟩, back]
  rfl

theorem copyUnion_other {base dest : UInt32} (start : UInt32) (m : Machine)
    (aligned : PageAligned base) (destAligned : PageAligned dest) (apart : base ≠ dest)
    {k : Nat} (inside : k < 4096) :
    (copyUnion start dest m).mem (slot base k) = m.mem (slot base k) :=
  if_neg fun near => slot_sub_other aligned destAligned apart inside near.1

/-- Words that are written into one page. -/
def writeSlots (base : UInt32) : List (Nat × UInt32) → Machine → Machine
  | [], m => m
  | (k, value) :: slots, m => writeSlots base slots (m.write (slot base k) value)

theorem writeSlots_reg (base : UInt32) (slots : List (Nat × UInt32)) (m : Machine) :
    (writeSlots base slots m).reg = m.reg := by
  induction slots generalizing m with
  | nil => rfl
  | cons written slots inductionHypothesis => exact inductionHypothesis _

theorem writeSlots_beside {base address : UInt32} {slots : List (Nat × UInt32)}
    (beside : ∀ written ∈ slots, address ≠ slot base written.1) (m : Machine) :
    (writeSlots base slots m).mem address = m.mem address := by
  induction slots generalizing m with
  | nil => rfl
  | cons written slots inductionHypothesis =>
      have later := inductionHypothesis
        (fun other member => beside other (List.mem_cons_of_mem _ member))
        (m.write (slot base written.1) written.2)
      exact later.trans (Machine.write_of_ne (beside written List.mem_cons_self))

/-- The places in the child's page that a call writes. -/
def NewProcess.slots (call : NewProcess) (base retFromFork function stack : UInt32) :
    List (Nat × UInt32) :=
  let frame := [(4020, 0), (4024, retFromFork), (16, slot base childOffset)]
  match call with
  | .sysFork => frame
  | .sysClone => (4088, stack) :: (4076, function) :: frame

theorem prepare_eq (call : NewProcess) (base retFromFork : UInt32)
    {own function stack : UInt32}
    (page : current m = own) (frame : m.reg .ebp = slot own linkOffset)
    (first : m.mem (slot own linkOffset + 8) = function)
    (second : m.mem (slot own linkOffset + 12) = stack) :
    call.prepare base retFromFork m =
      writeSlots base (call.slots base retFromFork function stack) m := by
  cases call with
  | sysFork =>
      change forkFrame base retFromFork m = _
      unfold forkFrame
      dsimp only
      rw [page, frame, fork_offset]
      rfl
  | sysClone =>
      change cloneFrame base retFromFork m = _
      unfold cloneFrame
      dsimp only
      rw [frame, first, second]
      rfl

/-- What the child's stack holds above the frame for `ret_from_fork`. -/
def NewProcess.childWords (call : NewProcess) (function stack : UInt32) (ws : List UInt32) :
    List UInt32 :=
  match call with
  | .sysFork => ws
  | .sysClone => (ws.set 15 stack).set 12 function

theorem length_childWords (call : NewProcess) (function stack : UInt32) (ws : List UInt32) :
    (call.childWords function stack ws).length = ws.length := by
  cases call with
  | sysFork => rfl
  | sysClone => exact List.length_set.trans List.length_set

theorem slots_inside (call : NewProcess) (base retFromFork function stack : UInt32) :
    ∀ written ∈ call.slots base retFromFork function stack, written.1 < 4096 := by
  intro written member
  have place := List.mem_map_of_mem (f := Prod.fst) member
  have inside : ∀ k ∈ [4088, 4076, 4020, 4024, 16], k < 4096 := by decide
  cases call with
  | sysFork => exact inside _ (List.mem_cons_of_mem _ (List.mem_cons_of_mem _ place))
  | sysClone => exact inside _ place

theorem writeSlots_child (call : NewProcess) {base : UInt32}
    (retFromFork function stack : UInt32) (aligned : PageAligned base)
    (words : Words m.mem (slot base 4028) ws)
    (count : ws.length = 17) :
    Words (writeSlots base (call.slots base retFromFork function stack) m).mem
        (slot base childOffset)
        (0 :: retFromFork :: call.childWords function stack ws) ∧
      (writeSlots base (call.slots base retFromFork function stack) m).mem
        (base + kernelEspOffset) = slot base childOffset := by
  have apart : ∀ i j, i < 4096 → j < 4096 → i ≠ j → slot base i ≠ slot base j :=
    fun i j first second different => slot_ne aligned first second different
  -- the last three words, over whatever was written before
  have frame : ∀ (m' : Machine) (ws' : List UInt32), Words m'.mem (slot base 4028) ws' →
      ws'.length = 17 →
      Words (writeSlots base [(4020, 0), (4024, retFromFork), (16, slot base childOffset)] m').mem
          (slot base childOffset) (0 :: retFromFork :: ws') ∧
        (writeSlots base [(4020, 0), (4024, retFromFork), (16, slot base childOffset)] m').mem
          (base + kernelEspOffset) = slot base childOffset := by
    intro m' ws' words' count'
    refine ⟨⟨?_, ?_, ?_⟩, Machine.write_self⟩
    · change (((m'.write _ 0).write _ retFromFork).write _ _).mem (slot base 4020) = 0
      rw [Machine.write_of_ne (apart _ _ (by decide) (by decide) (by decide)),
        Machine.write_of_ne (apart _ _ (by decide) (by decide) (by decide)),
        Machine.write_self]
    · change (((m'.write _ 0).write _ retFromFork).write _ _).mem (slot base 4020 + 4) = _
      rw [show slot base 4020 + 4 = slot base 4024 from slot_add base 4020 4,
        Machine.write_of_ne (apart _ _ (by decide) (by decide) (by decide)),
        Machine.write_self]
    · rw [show slot base childOffset + 4 + 4 = slot base 4028 from
        (congrArg (· + 4) (slot_add base 4020 4)).trans (slot_add base 4024 4)]
      apply words_moved words'
      intro k few
      apply writeSlots_beside
      intro written member
      simp only [List.mem_cons, List.not_mem_nil, or_false] at member
      rcases member with rfl | rfl | rfl <;>
        exact apart _ _ (by omega) (by dsimp only; omega) (by dsimp only; omega)
  cases call with
  | sysFork => exact frame m ws words count
  | sysClone =>
      have high : slot base 4028 + UInt32.ofNat (4 * 15) = slot base 4088 := slot_add base 4028 60
      have low : slot base 4028 + UInt32.ofNat (4 * 12) = slot base 4076 := slot_add base 4028 48
      have length : (ws.set 15 stack).length = 17 := List.length_set.trans count
      have first : Words (Function.update m.mem (slot base 4028 + UInt32.ofNat (4 * 15)) stack)
          (slot base 4028) (ws.set 15 stack) := words.set (by omega) 15 (by omega)
      rw [high] at first
      have second : Words (Function.update (Function.update m.mem (slot base 4088) stack)
          (slot base 4028 + UInt32.ofNat (4 * 12)) function) (slot base 4028)
          ((ws.set 15 stack).set 12 function) := first.set (by omega) 12 (by omega)
      rw [low] at second
      exact frame ((m.write (slot base 4088) stack).write (slot base 4076) function) _ second
        (List.length_set.trans length)

/-! ## A call that succeeds -/

theorem epilog_spec {back : UInt32} (words : Words m.mem (m.reg .ebp) (link :: back :: ws)) :
    (ret (m.run epilog)).eip = back ∧ Stack (ret (m.run epilog)).machine ws ∧
      (ret (m.run epilog)).machine.reg .esp = m.reg .ebp + 8 ∧
      (ret (m.run epilog)).machine.mem = m.mem ∧
      (ret (m.run epilog)).machine.reg .eax = m.reg .eax := by
  let unwound := m.setReg .esp (m.reg .ebp)
  have pointer : unwound.reg .esp = m.reg .ebp := Machine.setReg_self
  have stacked : Stack unwound (link :: back :: ws) := by
    unfold Stack
    rw [pointer]
    exact words
  have unlinked : Stack (unwound.exec (.pop .ebp)) (back :: ws) :=
    (stacked.exec_pop (by decide)).1
  have lower : (m.run epilog).reg .esp = m.reg .ebp + 4 := by
    change ((unwound.drop).setReg .ebp _).reg .esp = _
    rw [Machine.setReg_of_ne (by decide), Machine.drop_esp, pointer]
  refine ⟨unlinked.top, unlinked.drop, ?_, rfl, ?_⟩
  · change (m.run epilog).drop.reg .esp = _
    rw [Machine.drop_esp, lower, UInt32.add_assoc]
    rfl
  · change (m.run epilog).drop.reg .eax = _
    rw [Machine.drop_reg (by decide)]
    change ((unwound.drop).setReg .ebp _).reg .eax = _
    rw [Machine.setReg_of_ne (by decide), Machine.drop_reg (by decide),
      Machine.setReg_of_ne (by decide)]

namespace Unions.Kept

theorem trans {m'' : Machine} (first : unions.Kept q m m') (second : unions.Kept q m' m'') :
    unions.Kept q m m'' where
  stack k above inside := (second.stack k above inside).trans (first.stack k above inside)
  kernelEsp := second.kernelEsp.trans first.kernelEsp

/-- Nothing in the page changes. -/
theorem of_page (same : ∀ k < 4096,
    m'.mem (slot (unions.base q) k) = m.mem (slot (unions.base q) k)) : unions.Kept q m m' where
  stack k _ inside := same k inside
  kernelEsp := same 16 (by decide)

end Unions.Kept

/-- What a successful call does to the stacks. -/
structure Created (unions : Unions code Process) (parent child : Process)
    (retFromFork : UInt32) (entry : Machine) (back : UInt32) (ws childWs : List UInt32)
    (final : Cpu) : Prop where
  eip : final.eip = back
  own : Stack final.machine ws
  esp : final.machine.reg .esp = entry.reg .esp + 4
  frame : Words final.machine.mem (slot (unions.base child) childOffset)
    (0 :: retFromFork :: childWs)
  kernelEsp : final.machine.mem (unions.base child + kernelEspOffset) =
    slot (unions.base child) childOffset
  others : ∀ q, q ≠ parent → q ≠ child → unions.Kept q entry final.machine

/-- In a function that the gate has called: its frame begins with `contents`. -/
structure InCall (base : UInt32) (locals : Nat) (contents : List UInt32) (m : Machine) :
    Prop where
  esp : m.reg .esp = slot base (linkOffset - 4 * locals)
  ebp : m.reg .ebp = slot base linkOffset
  words : Words m.mem (slot base linkOffset) contents
  count : contents.length = 18

namespace InCall

variable {base : UInt32} {contents : List UInt32}

theorem enter {entry : Machine} (pointer : entry.reg .esp = slot base 4028)
    (stacked : Stack entry ws) (count : ws.length = 17)
    (room : taskStructSize + 4 * locals ≤ linkOffset) :
    InCall base locals (entry.reg .ebp :: ws) (entry.run (prolog locals)) := by
  unfold taskStructSize linkOffset at room
  obtain ⟨grown, words, ebp⟩ := prolog_spec locals stacked (by omega)
  have linkAt : entry.reg .esp - 4 = slot base linkOffset := by
    rw [pointer]
    exact slot_sub_four _ (by decide)
  rw [linkAt] at words ebp
  refine ⟨?_, ebp, words, congrArg (· + 1) count⟩
  rw [grown.pointer, pointer, slot_sub _ (by omega)]
  unfold linkOffset
  congr 1
  omega

theorem keep (inCall : InCall base locals contents m) (esp : m'.reg .esp = m.reg .esp)
    (ebp : m'.reg .ebp = m.reg .ebp) (same : ∀ k, linkOffset ≤ k → k < 4096 →
      m'.mem (slot base k) = m.mem (slot base k)) : InCall base locals contents m' where
  esp := esp.trans inCall.esp
  ebp := ebp.trans inCall.ebp
  words := words_moved inCall.words fun k few => same _ (Nat.le_add_right _ _) (by
    rw [inCall.count] at few
    unfold linkOffset
    omega)
  count := inCall.count

theorem page (inCall : InCall base locals contents m) (aligned : PageAligned base) :
    current m = base := by
  unfold current
  rw [inCall.esp]
  exact slot_page aligned (by unfold linkOffset; omega)

/-- The copy has the frame too. -/
theorem copy {other : UInt32} (inCall : InCall base locals contents m) :
    Words (copyUnion base other m).mem (slot other linkOffset) contents :=
  words_moved inCall.words fun k few => copyUnion_child base other m (by
    rw [inCall.count] at few
    unfold linkOffset
    omega) (by unfold linkOffset; omega)

end InCall

section Pages

variable (different : q ≠ child)

include different

theorem base_ne : unions.base q ≠ unions.base child := fun same =>
  different (unions.apart same)

theorem copyUnion_page (start : UInt32) (m : Machine) : ∀ k < 4096,
    (copyUnion start (unions.base child) m).mem (slot (unions.base q) k) =
      m.mem (slot (unions.base q) k) := fun _ inside =>
  copyUnion_other start m (unions.aligned q) (unions.aligned child) (base_ne different) inside

theorem writeSlots_page {slots : List (Nat × UInt32)}
    (inside : ∀ written ∈ slots, written.1 < 4096) (m : Machine) : ∀ k < 4096,
    (writeSlots (unions.base child) slots m).mem (slot (unions.base q) k) =
      m.mem (slot (unions.base q) k) := by
  intro k few
  apply writeSlots_beside
  intro written member same
  exact base_ne different (slot_inj (unions.aligned q) (unions.aligned child) few
    (inside written member) same).1

end Pages

theorem prolog_page {entry : Machine} (other : q ≠ parent)
    (pointer : entry.reg .esp = slot (unions.base parent) 4028) (stacked : Stack entry ws)
    (few : ws.length < 1000) (room : taskStructSize + 4 * locals ≤ linkOffset) :
    ∀ k < 4096, (entry.run (prolog locals)).mem (slot (unions.base q) k) =
      entry.mem (slot (unions.base q) k) := by
  intro k inside
  apply (prolog_spec locals stacked few).1.beside
  intro below
  unfold taskStructSize linkOffset at room
  rw [pointer] at below
  obtain ⟨j, high, low, same⟩ := below_slot (by omega) below
  exact other (unions.apart
    (slot_inj (unions.aligned q) (unions.aligned parent) inside (by omega) same).1)

theorem NewProcess.Run.created {call : NewProcess} {entry : Machine} {final : Cpu}
    {back function stack : UInt32} {rest : List UInt32}
    (run : call.Run unions parent child retFromFork locals entry final)
    (other : parent ≠ child) (pointer : entry.reg .esp = slot (unions.base parent) 4028)
    (stacked : Stack entry (back :: function :: stack :: rest)) (count : rest.length = 14)
    (room : taskStructSize + 4 * locals ≤ linkOffset) :
    Created unions parent child retFromFork entry back (function :: stack :: rest)
      (call.childWords function stack (back :: function :: stack :: rest)) final := by
  obtain ⟨first, second, third⟩ := run
  rename_i before copied prepared
  have whole : (back :: function :: stack :: rest).length = 17 := congrArg (· + 3) count
  have entered := InCall.enter pointer stacked whole room
  have inBefore := entered.keep first.esp first.ebp first.ownStack
  rw [inBefore.page (unions.aligned parent)] at second
  have copying : InCall (unions.base parent) locals
      (entry.reg .ebp :: back :: function :: stack :: rest)
      (copyUnion (unions.base parent) (unions.base child) before) :=
    inBefore.keep rfl rfl fun k _ inside => copyUnion_page other _ before k inside
  have inCopied := copying.keep second.esp second.ebp second.ownStack
  have copiedWords := words_moved inBefore.copy fun k few => second.childStack (linkOffset + 4 * k)
    (by unfold linkOffset childOffset; omega) (by
      rw [inBefore.count] at few
      unfold linkOffset
      omega)
  rw [prepare_eq call (unions.base child) retFromFork (inCopied.page (unions.aligned parent))
    inCopied.ebp (inCopied.words.get (k := 2) rfl) (inCopied.words.get (k := 3) rfl)] at third
  obtain ⟨_, above⟩ := copiedWords
  rw [show slot (unions.base child) linkOffset + 4 = slot (unions.base child) 4028 from
    slot_add _ 4024 4] at above
  obtain ⟨made, kernelEsp⟩ :=
    writeSlots_child call retFromFork function stack (unions.aligned child) above whole
  have registers := writeSlots_reg (unions.base child)
    (call.slots (unions.base child) retFromFork function stack) copied
  have preparing := inCopied.keep (congrFun registers .esp) (congrFun registers .ebp)
    fun k _ inside => writeSlots_page other (slots_inside call _ _ _ _) copied k inside
  have inPrepared := preparing.keep third.esp third.ebp third.ownStack
  have childFrame := words_moved made fun k few => third.childStack (childOffset + 4 * k)
    (Nat.le_add_right _ _) (by
      rw [List.length_cons, List.length_cons, length_childWords, whole] at few
      unfold childOffset
      omega)
  have result : (prepared.setReg .eax (prepared.mem (unions.base child))).mem = prepared.mem := rfl
  have inLast : InCall (unions.base parent) locals
      (entry.reg .ebp :: back :: function :: stack :: rest)
      (prepared.setReg .eax (prepared.mem (unions.base child))) :=
    inPrepared.keep (Machine.setReg_of_ne (by decide)) (Machine.setReg_of_ne (by decide))
      fun _ _ _ => rfl
  generalize prepared.setReg .eax (prepared.mem (unions.base child)) = last at inLast result ⊢
  have framed := inLast.words
  rw [← inLast.ebp] at framed
  obtain ⟨eip, own, esp, kept, _⟩ := epilog_spec framed
  have memory := kept.trans result
  refine ⟨eip, own, ?_, ?_, ?_, ?_⟩
  · rw [esp, inLast.ebp, pointer]
    exact (slot_add _ linkOffset 8).trans (slot_add _ 4028 4).symm
  · rw [memory]
    exact childFrame
  · rw [memory]
    exact third.kernelEsp.trans kernelEsp
  · intro q notParent notChild
    have atEnd : unions.Kept q prepared (ret (last.run epilog)).machine :=
      .of_page fun k _ => congrFun memory _
    have begun : unions.Kept q entry (entry.run (prolog locals)) :=
      .of_page (prolog_page notParent pointer stacked (by omega) room)
    exact ((((begun.trans (first.others q notParent notChild)).trans
      (.of_page (copyUnion_page notChild _ before))).trans
      (second.others q notParent notChild)).trans
      (.of_page (writeSlots_page notChild (slots_inside call _ _ _ _) copied))).trans
      ((third.others q notParent notChild).trans atEnd)

/-! ## From the switch to user mode -/

theorem retFromFork_spec {back : UInt32} (stacked : Stack m (back :: ws))
    (few : ws.length < 900) :
    (ret (m.run retFromForkCode)).eip = back ∧
      Stack (ret (m.run retFromForkCode)).machine ws ∧
      (ret (m.run retFromForkCode)).machine.reg .esp = m.reg .esp + 4 ∧
      (ret (m.run retFromForkCode)).machine.reg .eax = 0 := by
  obtain ⟨_, words, ebp⟩ := prolog_spec 0 stacked (by rw [List.length_cons]; omega)
  have code : m.run retFromForkCode = ((m.run (prolog 0)).setReg .eax 0).run epilog := by
    unfold retFromForkCode
    rw [Machine.run_append, Machine.run_cons]
    rfl
  generalize m.run (prolog 0) = begun at words ebp code
  have link : (begun.setReg .eax 0).reg .ebp = m.reg .esp - 4 :=
    (Machine.setReg_of_ne (by decide)).trans ebp
  rw [← link] at words
  obtain ⟨eip, stack, esp, _, eax⟩ := epilog_spec (m := begun.setReg .eax 0) words
  rw [code]
  refine ⟨eip, stack, ?_, eax.trans Machine.setReg_self⟩
  rw [esp, link]
  change m.reg .esp - 4 + (4 + 4) = m.reg .esp + 4
  abel

/-- What `iret` takes when the child of a trap with these words gets there. -/
def NewProcess.userFrame (call : NewProcess) (trap : Machine) (eip cs eflags esp ss : UInt32) :
    List UInt32 :=
  match call with
  | .sysFork => [eip, cs, eflags, esp, ss]
  | .sysClone => [trap.reg .ebx, cs, eflags, trap.reg .ecx, ss]

theorem length_userFrame (call : NewProcess) (trap : Machine) (eip cs eflags esp ss : UInt32) :
    (call.userFrame trap eip cs eflags esp ss).length = 5 := by
  cases call with
  | sysFork => rfl
  | sysClone => rfl

/-- Before `iret`: the user's frame, the registers of the trap, and 0 in `eax`. -/
structure AtIret (trap : Machine) (top : UInt32) (frame : List UInt32) (m : Machine) :
    Prop where
  frame : Stack m frame
  esp : m.reg .esp + 20 = top
  eax : m.reg .eax = 0
  registers : ∀ r ∈ allSaved, r ≠ .eax → m.reg r = trap.reg r

variable {trap : Machine} {eip cs eflags esp ss : UInt32} {base : UInt32}

theorem childWords_frame (call : NewProcess) (back : UInt32) :
    call.childWords (trap.reg .ebx) (trap.reg .ecx)
        (back :: (saved trap ++ [eip, cs, eflags, esp, ss])) =
      back :: (saved trap ++ call.userFrame trap eip cs eflags esp ss) := by
  cases call with
  | sysFork => rfl
  | sysClone => rfl

theorem leaveGate_child (sysToUser : Conforms (slot base 4096) gate.sysToUserStats)
    (stacked : Stack m (saved trap ++ [eip, cs, eflags, esp, ss]))
    (pointer : m.reg .esp = slot base 4032) (eax : m.reg .eax = 0) :
    AtIret trap (slot base 4096) [eip, cs, eflags, esp, ss] (leaveGate gate m) := by
  -- the trap as it would have been on the child's own stack
  let moved := trap.setReg .esp (slot base 4076)
  have movedEsp : moved.reg .esp = slot base 4076 := Machine.setReg_self
  have low : m.reg .esp = moved.reg .esp - 44 := by
    rw [movedEsp, pointer]
    exact (slot_sub base (i := 4076) (j := 44) (by decide)).symm
  have high : moved.reg .esp + 20 = slot base 4096 := by
    rw [movedEsp]
    exact slot_add base 4076 20
  have stackedMoved : Stack m (saved moved ++ [eip, cs, eflags, esp, ss]) := stacked
  obtain ⟨frame, up, result, registers⟩ :=
    leaveGate_restores sysToUser stackedMoved low high
  refine ⟨frame, (congrArg (· + 20) up).trans high, result.trans eax, ?_⟩
  intro r member notEax
  have notEsp : r ≠ .esp := by
    revert r
    decide
  exact (registers r member notEax).trans (Machine.setReg_of_ne notEsp)

variable [DecidableEq Process] {s start : Contexts Process} {words : List UInt32}

/-- The child is neither made again nor switched to. -/
def Untouched (child : Process) : ContextEvent Process → Prop
  | .work _ => True
  | .build other _ _ _ _ => other ≠ child
  | .switch new _ _ => new ≠ child

/-- A child that waits for its first switch, with the words on its stack. -/
structure Waiting (unions : Unions code Process) (child : Process) (retFromFork : UInt32)
    (words : List UInt32) (s : Contexts Process) : Prop where
  notRunning : child ≠ s.running
  context : s.saved child = some (.built childOffset 0 retFromFork)
  stack : Words s.machine.mem (slot (unions.base child) childOffset) words
  held : unions.AllHeld s

theorem Waiting.step {event : ContextEvent Process} {after : Contexts Process}
    (waiting : Waiting unions child retFromFork words s) (count : words.length = 19)
    (allowed : unions.Allowed s event) (untouched : Untouched child event)
    (taken : s.step code event = some after) :
    Waiting unions child retFromFork words after := by
  have held := waiting.held.step allowed taken
  have keep : ∀ {machine : Machine}, unions.Kept child s.machine machine →
      Words machine.mem (slot (unions.base child) childOffset) words := fun kept =>
    Context.words_kept kept waiting.stack (by decide) (by unfold childOffset; omega)
  cases event with
  | work machine =>
      cases taken
      exact ⟨waiting.notRunning, waiting.context, keep (allowed child waiting.notRunning), held⟩
  | build other offset ebp entry machine =>
      obtain ⟨_, _, _, _, _, _, kept⟩ := allowed
      cases taken
      refine ⟨waiting.notRunning, ?_, keep (kept child waiting.notRunning untouched.symm), held⟩
      exact (Function.update_of_ne untouched.symm _ _).trans waiting.context
  | switch new offset back =>
      obtain ⟨transparent, _⟩ := waiting.held.switch allowed
      cases taken
      refine ⟨untouched.symm, ?_, keep (transparent.others child waiting.notRunning), held⟩
      exact (Function.update_of_ne waiting.notRunning _ _).trans waiting.context

/-- The state after a call that made `child`. -/
def Contexts.withChild (s : Contexts Process) (child : Process) (retFromFork : UInt32)
    (machine : Machine) : Contexts Process :=
  ⟨machine, s.running,
    Function.update s.saved child (some (.built childOffset 0 retFromFork))⟩

/-- The child's way from its first switch: `ret_from_fork`, and the gate. -/
structure Starts (gate : GateCode) (retFromFork top : UInt32) (trap : Machine)
    (frame : List UInt32) (cpu : Cpu) : Prop where
  entry : cpu.eip = retFromFork
  returned : (ret (cpu.machine.run retFromForkCode)).eip = gate.returnRoutine
  user : AtIret trap top frame
    (leaveGate gate (ret (cpu.machine.run retFromForkCode)).machine)

theorem Waiting.starts {call : NewProcess} {offset : Nat} {back : UInt32}
    (waiting : Waiting unions child retFromFork (0 :: retFromFork :: gate.returnRoutine ::
      (saved trap ++ call.userFrame trap eip cs eflags esp ss)) s)
    (sysToUser : Conforms (slot (unions.base child) 4096) gate.sysToUserStats)
    (allowed : unions.Allowed s (.switch child offset back)) :
    Starts gate retFromFork (slot (unions.base child) 4096) trap
      (call.userFrame trap eip cs eflags esp ss) (s.switched code) := by
  obtain ⟨transparent, _⟩ := waiting.held.switch allowed
  obtain ⟨context, isContext, resumed⟩ := transparent.resumed
  have same : s.called offset back child = some (.built childOffset 0 retFromFork) :=
    (Function.update_of_ne waiting.notRunning _ _).trans waiting.context
  rw [same] at isContext
  cases isContext
  obtain ⟨entry, pointer, _⟩ := resumed
  obtain ⟨_, _, above⟩ := Context.words_kept
    (transparent.others child waiting.notRunning) waiting.stack (by decide)
    (by simp [length_userFrame, saved, childOffset])
  have stacked : Stack (s.switched code).machine (gate.returnRoutine ::
      (saved trap ++ call.userFrame trap eip cs eflags esp ss)) := by
    unfold Stack
    rw [pointer]
    rw [show slot (unions.base child) childOffset + 4 + 4 =
      slot (unions.base child) (childOffset + 8) from
        (congrArg (· + 4) (slot_add _ childOffset 4)).trans (slot_add _ (childOffset + 4) 4)]
      at above
    exact above
  obtain ⟨returned, rest, up, eax⟩ := retFromFork_spec stacked
    (by simp [length_userFrame, saved])
  have upper : (ret ((s.switched code).machine.run retFromForkCode)).machine.reg .esp =
      slot (unions.base child) 4032 := by
    rw [up, pointer]
    exact slot_add _ 4028 4
  refine ⟨entry, returned, ?_⟩
  cases call with
  | sysFork => exact leaveGate_child sysToUser rest upper eax
  | sysClone => exact leaveGate_child sysToUser rest upper eax

/-- The child of a successful `sys_fork` or `sys_clone` that process `s.running` has called
through the gate starts where and as it should, whenever it is first switched to; and
the call returns to the gate with the parent's frame as it was. -/
theorem children_start {call : NewProcess} {final : Cpu}
    (none : ∀ q, start.saved q = none)
    (run : Reach (Contexts.step code) unions.Allowed start s)
    (outside : retFromFork ∉ code.labels) (free : s.running ≠ child)
    (userToSys : Conforms (slot (unions.base s.running) 4096) gate.userToSysStats)
    (sysToUser : Conforms (slot (unions.base child) 4096) gate.sysToUserStats)
    (trapped : Stack trap [eip, cs, eflags, esp, ss])
    (pointer : trap.reg .esp = slot (unions.base s.running) 4076)
    (atEntry : s.machine = callEntry gate trap)
    (room : taskStructSize + 4 * locals ≤ linkOffset)
    (called : call.Run unions s.running child retFromFork locals s.machine final) :
    (final.eip = gate.returnRoutine ∧
      Stack final.machine (saved trap ++ [eip, cs, eflags, esp, ss]) ∧
      final.machine.reg .esp = s.machine.reg .esp + 4) ∧
    unions.Allowed s (.build child childOffset 0 retFromFork final.machine) ∧
    ∀ s' offset back,
      Reach (Contexts.step code)
        (fun state event => unions.Allowed state event ∧ Untouched child event)
        (s.withChild child retFromFork final.machine) s' →
      unions.Allowed s' (.switch child offset back) →
      Starts gate retFromFork (slot (unions.base child) 4096) trap
        (call.userFrame trap eip cs eflags esp ss) (s'.switched code) := by
  have top : trap.reg .esp + 20 = slot (unions.base s.running) 4096 := by
    rw [pointer]
    exact slot_add _ 4076 20
  obtain ⟨entered, _, lower⟩ := callEntry_stack userToSys trapped top
  rw [← atEntry] at entered lower
  have entryPointer : s.machine.reg .esp = slot (unions.base s.running) 4028 := by
    rw [lower, pointer]
    exact (congrArg (· - 4) (slot_sub _ (i := 4076) (j := 44) (by decide))).trans
      (slot_sub_four _ (by decide))
  have made := called.created free entryPointer entered (by simp) room
  have frame : Words final.machine.mem (slot (unions.base child) childOffset)
      (0 :: retFromFork :: gate.returnRoutine ::
        (saved trap ++ call.userFrame trap eip cs eflags esp ss)) := by
    rw [← childWords_frame]
    exact made.frame
  have allowedBuild :
      unions.Allowed s (.build child childOffset 0 retFromFork final.machine) := by
    refine ⟨free.symm, by decide, by decide, outside, ⟨frame.1, frame.2.1, trivial⟩,
      made.kernelEsp, fun q notRunning notChild => made.others q notRunning notChild⟩
  have held := Unions.allHeld_of_run none run
  have first : Waiting unions child retFromFork (0 :: retFromFork :: gate.returnRoutine ::
      (saved trap ++ call.userFrame trap eip cs eflags esp ss))
      (s.withChild child retFromFork final.machine) :=
    ⟨free.symm, Function.update_self _ _ _, frame, held.step allowedBuild rfl⟩
  refine ⟨⟨made.eip, made.own, made.esp⟩, allowedBuild, ?_⟩
  intro s' offset back later allowed
  have waiting := later.invariant first fun _ _ _ waiting condition taken =>
    waiting.step (by simp [length_userFrame, saved]) condition.1 condition.2 taken
  exact waiting.starts sysToUser allowed

omit [DecidableEq Process] in
theorem Aside.refl (unions : Unions code Process) (parent child : Process) (m : Machine) :
    Aside unions parent child m m where
  esp := rfl
  ebp := rfl
  ownStack _ _ _ := rfl
  childStack _ _ _ := rfl
  kernelEsp := rfl
  others _ _ _ := ⟨fun _ _ _ => rfl, rfl⟩

omit [DecidableEq Process] in
theorem NewProcess.exists_run (unions : Unions code Process) (parent child : Process)
    (retFromFork : UInt32) (locals : Nat) (call : NewProcess) (entry : Machine) :
    ∃ final, call.Run unions parent child retFromFork locals entry final :=
  ⟨_, .returns (.refl unions parent child _) (.refl unions parent child _)
    (.refl unions parent child _)⟩

/-- A trap of the process `false` for `clone(0x100000, 0x110000)`. -/
def cloneTrap : Machine where
  reg
    | .esp => 0x10FEC
    | .ebx => 0x100000
    | .ecx => 0x110000
    | _ => 0
  mem _ := 0

def cloneCalled : Contexts Bool := ⟨callEntry plainCode cloneTrap, false, fun _ => none⟩

/-- The process `false` has gone on to a call of `task_switch_asm`. -/
def switchCalled (m : Machine) : Machine :=
  (writeSlots 0x10000 [(3840, 0x5000), (3844, 0x11000)] m).setReg .esp (slot 0x10000 3840)

theorem switchCalled_stack (m : Machine) : Stack (switchCalled m) [0x5000, 0x11000] := by
  have apart : (0x10F00 : UInt32) ≠ 0x10F04 := by decide
  refine ⟨?_, ?_, trivial⟩
  · change ((m.write 0x10F00 0x5000).write 0x10F04 0x11000).mem 0x10F00 = 0x5000
    rw [Machine.write_of_ne apart, Machine.write_self]
  · change ((m.write 0x10F00 0x5000).write 0x10F04 0x11000).mem 0x10F04 = 0x11000
    rw [Machine.write_self]

theorem children_start_clone : ∃ final,
    NewProcess.sysClone.Run sampleUnions false true 0x700 2 cloneCalled.machine final ∧
      Starts plainCode 0x700 (slot 0x11000 4096) cloneTrap [0x100000, 0, 0, 0x110000, 0]
        (Contexts.switched sampleCode { cloneCalled.withChild true 0x700 final.machine with
          machine := switchCalled final.machine }) := by
  obtain ⟨final, called⟩ := NewProcess.exists_run sampleUnions false true 0x700 2 .sysClone
    cloneCalled.machine
  have trapped : Stack cloneTrap [0, 0, 0, 0, 0] := ⟨rfl, rfl, rfl, rfl, rfl, trivial⟩
  have enters : Conforms (slot (sampleUnions.base false) 4096) plainCode.userToSysStats :=
    returning_conforms 0
  have leaves : Conforms (slot (sampleUnions.base true) 4096) plainCode.sysToUserStats :=
    returning_conforms 0
  obtain ⟨_, _, starts⟩ := children_start (fun _ => rfl)
    (.start : Reach (Contexts.step sampleCode) sampleUnions.Allowed cloneCalled cloneCalled)
    (by decide) (by decide) enters leaves trapped rfl rfl (by decide) called
  have places : ∀ written ∈ [((3840 : Nat), (0x5000 : UInt32)), (3844, 0x11000)],
      written.1 < 4096 := by decide
  have other : true ≠ false := by decide
  have pages : ∀ k < 4096, (writeSlots (sampleUnions.base false) _ final.machine).mem
      (slot (sampleUnions.base true) k) = final.machine.mem (slot (sampleUnions.base true) k) :=
    writeSlots_page other places final.machine
  have kept : sampleUnions.Kept true final.machine (switchCalled final.machine) :=
    .of_page pages
  have worked : (cloneCalled.withChild true 0x700 final.machine).step sampleCode
      (.work (switchCalled final.machine)) = some _ := rfl
  have allowed : sampleUnions.Allowed (cloneCalled.withChild true 0x700 final.machine)
      (.work (switchCalled final.machine)) := by
    intro q notRunning
    cases q with
    | false => exact absurd rfl notRunning
    | true => exact kept
  refine ⟨final, called, starts _ 3840 0x5000 (.step .start ⟨allowed, trivial⟩ worked) ?_⟩
  exact ⟨⟨Machine.setReg_self, by decide, by decide, switchCalled_stack final.machine⟩,
    by decide, Or.inr rfl⟩

end Zeos.Switch
