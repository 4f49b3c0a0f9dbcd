import Zeos.Library.Assembly

/-!
# `task_switch_asm`

`task_switch_asm.S` and `inner_task_switch` of `sched.c` as basic blocks: each ends in a
call or a return, and the code is left when a return leads out of it.  The compiler's
code for `inner_task_switch` has the standard frame pointer and any number of locals.
-/

namespace Zeos.Switch

open Zeos.Library

/-- Where the code of a switch is, the address of `tss.esp0`, and how many words
`inner_task_switch` reserves. -/
structure SwitchCode where
  taskSwitchAsm : UInt32
  innerTaskSwitch : UInt32
  stackSwap : UInt32
  afterInner : UInt32
  afterSwap : UInt32
  tssEsp0 : UInt32
  locals : Nat
  distinct : [taskSwitchAsm, innerTaskSwitch, stackSwap, afterInner, afterSwap].Nodup

/-- The addresses at which the blocks begin. -/
def SwitchCode.labels (code : SwitchCode) : List UInt32 :=
  [code.taskSwitchAsm, code.innerTaskSwitch, code.stackSwap, code.afterInner, code.afterSwap]

structure Cpu where
  machine : Machine
  eip : UInt32

/-- `ret`. -/
def ret (m : Machine) : Cpu := ⟨m.drop, m.mem (m.reg .esp)⟩

/-- `sizeof (union task_union)`. -/
def unionSize : UInt32 := 4096

/-- The offset of `kernel_esp` in a PCB. -/
def kernelEspOffset : UInt32 := 16

/-- The offset of `dir_pages_baseAddr` in a PCB. -/
def dirOffset : UInt32 := 4

/-- `task_switch_asm` up to `call inner_task_switch`. -/
def saveContext : List Instr :=
  [.push .ebp, .mov .esp .ebp] ++ [.ebx, .esi, .edi].map .push ++ [.pushMem 8 .ebp]

/-- `task_switch_asm` after `call inner_task_switch`, up to `ret`. -/
def restoreContext : List Instr :=
  .addImm 4 .esp :: [.edi, .esi, .ebx, .ebp].map .pop

/-- How a C function begins: the dynamic link and the locals. -/
def prolog (locals : Nat) : List Instr :=
  [.push .ebp, .mov .esp .ebp, .addImm (0 - UInt32.ofNat (4 * locals)) .esp]

/-- `tss.esp0 = (int) &(new->stack[KERNEL_STACK_SIZE]);` and
`set_cr3(get_DIR(&new->task));` -/
def innerBody (code : SwitchCode) : List Instr :=
  [.load 8 .ebp .eax, .mov .eax .ecx, .addImm unionSize .ecx, .movImm code.tssEsp0 .edx,
    .store .ecx 0 .edx, .load dirOffset .eax .ecx, .mov .ecx .cr3]

/-- `&current()->kernel_esp` and `&(new->task).kernel_esp`. -/
def innerArguments : List Instr :=
  [.addImm kernelEspOffset .eax, .push .eax, .mov .esp .ecx, .andImm 0xfffff000 .ecx,
    .addImm kernelEspOffset .ecx, .push .ecx]

/-- How a C function ends, up to `ret`. -/
def epilog : List Instr := [.mov .ebp .esp, .pop .ebp]

/-- `stack_swap` up to `ret`. -/
def swapStacks : List Instr :=
  [.push .ebp, .mov .esp .ebp, .load 8 .ebp .ecx, .load 12 .ebp .edx, .store .ebp 0 .ecx,
    .load 0 .edx .esp, .pop .ebp]

/-- The block at `eip`, if it is one of the switch. -/
def block (code : SwitchCode) (cpu : Cpu) : Option Cpu :=
  let m := cpu.machine
  if cpu.eip = code.taskSwitchAsm then
    some ⟨(m.run saveContext).push code.afterInner, code.innerTaskSwitch⟩
  else if cpu.eip = code.innerTaskSwitch then
    some ⟨(m.run (prolog code.locals ++ innerBody code ++ innerArguments)).push code.afterSwap,
      code.stackSwap⟩
  else if cpu.eip = code.stackSwap then
    some (ret (m.run swapStacks))
  else if cpu.eip = code.afterSwap then
    some (ret (m.run epilog))
  else if cpu.eip = code.afterInner then
    some (ret (m.run restoreContext))
  else
    none

/-- At most `fuel` blocks. -/
def blocks (code : SwitchCode) : Nat → Cpu → Cpu
  | 0, cpu => cpu
  | fuel + 1, cpu =>
      match block code cpu with
      | some next => blocks code fuel next
      | none => cpu

/-! ## Addresses in a page -/

/-- The word at an offset. -/
def slot (base : UInt32) (offset : Nat) : UInt32 := base + UInt32.ofNat offset

variable {base other : UInt32} {i j k : Nat}

theorem slot_add (base : UInt32) (i j : Nat) :
    slot base i + UInt32.ofNat j = slot base (i + j) := by
  unfold slot
  rw [UInt32.add_assoc, ← UInt32.ofNat_add]

theorem slot_sub (base : UInt32) (few : j ≤ i) :
    slot base i - UInt32.ofNat j = slot base (i - j) := by
  rw [← Nat.sub_add_cancel few, ← slot_add, UInt32.add_sub_cancel, Nat.sub_add_cancel few]

theorem slot_sub_four (base : UInt32) (few : 4 ≤ i) : slot base i - 4 = slot base (i - 4) :=
  slot_sub base few

/-- The base of a `task_union`. -/
def PageAligned (base : UInt32) : Prop := base.toNat % 4096 = 0

theorem slot_toNat (aligned : PageAligned base) (inside : i < 4096) :
    (slot base i).toNat = base.toNat + i := by
  have bounded := base.toNat_lt
  unfold PageAligned at aligned
  unfold slot
  rw [UInt32.toNat_add, UInt32.toNat_ofNat', Nat.mod_eq_of_lt (by omega : i < 2 ^ 32),
    Nat.mod_eq_of_lt (by omega)]

/-- An address determines the page and the offset. -/
theorem slot_inj (aligned : PageAligned base) (otherAligned : PageAligned other)
    (inside : i < 4096) (small : j < 4096) (same : slot base i = slot other j) :
    base = other ∧ i = j := by
  have value := congrArg UInt32.toNat same
  rw [slot_toNat aligned inside, slot_toNat otherAligned small] at value
  unfold PageAligned at aligned otherAligned
  exact ⟨UInt32.toNat_inj.mp (by omega), by omega⟩

theorem page_mask {value : Nat} (small : value < 2 ^ 32) :
    value &&& (2 ^ 20 - 1) * 2 ^ 12 = value / 2 ^ 12 * 2 ^ 12 := by
  apply Nat.eq_of_testBit_eq
  intro bit
  rw [Nat.testBit_and, Nat.testBit_mul_two_pow, Nat.testBit_mul_two_pow,
    Nat.testBit_two_pow_sub_one, Nat.testBit_div_two_pow]
  by_cases high : 12 ≤ bit
  · rw [Nat.sub_add_cancel high]
    by_cases inside : bit - 12 < 20
    · simp [high, inside]
    · have zero : value.testBit bit = false := Nat.testBit_lt_two_pow
        (lt_of_lt_of_le small (Nat.pow_le_pow_right (by decide) (by omega)))
      simp [zero]
  · simp [high]

/-- `current()`: the page that the stack pointer is in. -/
theorem slot_page (aligned : PageAligned base) (inside : i < 4096) :
    slot base i &&& 0xfffff000 = base := by
  apply UInt32.toNat_inj.mp
  have value := slot_toNat aligned inside
  have masked := page_mask (slot base i).toNat_lt
  rw [UInt32.toNat_and, show UInt32.toNat 0xfffff000 = (2 ^ 20 - 1) * 2 ^ 12 from rfl, masked,
    value]
  unfold PageAligned at aligned
  omega

/-! ## What the blocks do -/

variable {code : SwitchCode} {m : Machine} {back new : UInt32} {ws : List UInt32}

theorem saveContext_spec (stack : Stack m (back :: new :: ws)) (few : ws.length < 1000) :
    Grown 5 m (m.run saveContext) ∧
      Stack (m.run saveContext)
        (new :: m.reg .edi :: m.reg .esi :: m.reg .ebx :: m.reg .ebp :: back :: new :: ws) ∧
      (m.run saveContext).reg .ebp = m.reg .esp - 4 := by
  let linked := (m.push (m.reg .ebp)).setReg .ebp (m.reg .esp - 4)
  have stacked : Stack linked (m.reg .ebp :: back :: new :: ws) :=
    (stack.push (by simp; omega)).setReg (by decide)
  have link : Grown 1 m linked := (Grown.push m _).trans (Grown.setReg (by decide))
  have kept : ∀ r, r ≠ .esp → r ≠ .ebp → linked.reg r = m.reg r := fun r notEsp notEbp =>
    (Machine.setReg_of_ne notEbp).trans (Machine.push_reg notEsp)
  have base : linked.reg .ebp = m.reg .esp - 4 := Machine.setReg_self
  have run : m.run saveContext =
      ((linked.run ([.ebx, .esi, .edi].map .push)).exec (.pushMem 8 .ebp)) := by
    unfold saveContext
    rw [Machine.run_append, Machine.run_append]
    change ((((m.push (m.reg .ebp)).setReg .ebp ((m.push (m.reg .ebp)).reg .esp)).run _).run _) = _
    rw [Machine.push_esp]
    rfl
  obtain ⟨pushed, same, pointer⟩ := stacked.run_push [.ebx, .esi, .edi] (by simp; omega)
    (by decide)
  have saved := Grown.run_push (m := linked) [.ebx, .esi, .edi]
  rw [run]
  generalize linked.run ([.ebx, .esi, .edi].map .push) = after at pushed same pointer saved ⊢
  have frame : after.reg .ebp = m.reg .esp - 4 := (same .ebp (by decide)).trans base
  have argument : after.mem (after.reg .ebp + 8) = new := by
    have found : after.mem (after.reg .esp + UInt32.ofNat (4 * 5)) = new := pushed.get rfl
    have address : after.reg .ebp + 8 = after.reg .esp + UInt32.ofNat (4 * 5) := by
      rw [frame, saved.pointer, link.pointer]
      change m.reg .esp - 4 + 8 = m.reg .esp - 4 - 12 + (12 + 8)
      abel
    rw [address]
    exact found
  have value : after.exec (.pushMem 8 .ebp) = after.push new := congrArg after.push argument
  rw [value]
  refine ⟨(link.trans saved).trans (Grown.push after new), ?_, ?_⟩
  · have contents : ([.ebx, .esi, .edi].map linked.reg).reverse =
        [m.reg .edi, m.reg .esi, m.reg .ebx] := by
      rw [← kept .edi (by decide) (by decide), ← kept .esi (by decide) (by decide),
        ← kept .ebx (by decide) (by decide)]
      rfl
    rw [contents] at pushed
    exact pushed.push (by simp; omega)
  · rw [Machine.push_reg (by decide)]
    exact frame

theorem prolog_spec (locals : Nat) (stack : Stack m ws) (few : ws.length < 1000) :
    Grown (1 + locals) m (m.run (prolog locals)) ∧
      Words (m.run (prolog locals)).mem (m.reg .esp - 4) (m.reg .ebp :: ws) ∧
      (m.run (prolog locals)).reg .ebp = m.reg .esp - 4 := by
  let linked := (m.push (m.reg .ebp)).setReg .ebp ((m.push (m.reg .ebp)).reg .esp)
  have link : Grown 1 m linked := (Grown.push m _).trans (Grown.setReg (by decide))
  have stacked : Stack linked (m.reg .ebp :: ws) :=
    (stack.push (by omega)).setReg (by decide)
  have run : m.run (prolog locals) =
      linked.setReg .esp (linked.reg .esp - UInt32.ofNat (4 * locals)) := by
    change linked.setReg .esp (linked.reg .esp + (0 - UInt32.ofNat (4 * locals))) = _
    rw [zero_sub, ← sub_eq_add_neg]
  rw [run]
  refine ⟨link.trans (Grown.reserve linked locals), ?_, ?_⟩
  · have words : Words linked.mem (linked.reg .esp) (m.reg .ebp :: ws) := stacked
    rw [link.pointer] at words
    exact words
  · rw [Machine.setReg_of_ne (by decide)]
    exact Machine.setReg_self.trans Machine.push_esp

theorem innerBody_spec (code : SwitchCode) (argument : m.mem (m.reg .ebp + 8) = new)
    (apart : new + dirOffset ≠ code.tssEsp0) :
    (m.run (innerBody code)).mem = Function.update m.mem code.tssEsp0 (new + unionSize) ∧
      (m.run (innerBody code)).reg .esp = m.reg .esp ∧
      (m.run (innerBody code)).reg .ebp = m.reg .ebp ∧
      (m.run (innerBody code)).reg .eax = new ∧
      (m.run (innerBody code)).reg .cr3 = m.mem (new + dirOffset) := by
  have elsewhere : Function.update m.mem code.tssEsp0 (new + unionSize) (new + dirOffset) =
      m.mem (new + dirOffset) := Function.update_of_ne apart _ _
  have address : code.tssEsp0 + 0 = code.tssEsp0 := UInt32.add_zero _
  refine ⟨?_, ?_, ?_, ?_, ?_⟩
  · simp [innerBody, Machine.exec, Machine.write, argument, address]
  · simp [innerBody, Machine.exec]
  · simp [innerBody, Machine.exec]
  · simp [innerBody, Machine.exec, argument]
  · simp [innerBody, Machine.exec, Machine.write, argument, address, elsewhere]

theorem innerArguments_spec {k : Nat} (aligned : PageAligned base)
    (pointer : m.reg .esp = slot base k) (inside : 4 ≤ k ∧ k < 4096)
    (argument : m.reg .eax = new) (stack : Stack m ws) (few : ws.length < 1000) :
    Grown 2 m (m.run innerArguments) ∧
      Stack (m.run innerArguments)
        ((base + kernelEspOffset) :: (new + kernelEspOffset) :: ws) ∧
      (m.run innerArguments).reg .ebp = m.reg .ebp ∧
      (m.run innerArguments).reg .cr3 = m.reg .cr3 := by
  let first := (m.setReg .eax (new + kernelEspOffset)).push (new + kernelEspOffset)
  let second := first.setReg .ecx (base + kernelEspOffset)
  have grown : Grown 1 m first := (Grown.setReg (by decide)).trans (Grown.push _ _)
  have page : slot base (k - 4) &&& 0xfffff000 = base := slot_page aligned (by omega)
  have run : m.run innerArguments = second.push (base + kernelEspOffset) := by
    have current : m.reg .esp - 4 &&& 0xfffff000 = base := by
      rw [pointer]
      exact (congrArg (· &&& 0xfffff000) (slot_sub base inside.1)).trans page
    simp [innerArguments, Machine.exec, argument, current, second, first]
  rw [run]
  refine ⟨(grown.trans (Grown.setReg (by decide))).trans (Grown.push second _), ?_, ?_, ?_⟩
  · have stacked : Stack first ((new + kernelEspOffset) :: ws) :=
      (stack.setReg (by decide)).push (by omega)
    exact (stacked.setReg (by decide)).push (by simp; omega)
  · simp [second, first]
  · simp [second, first]

/-- `stack_swap` saves the stack pointer of one process and takes that of another. -/
theorem swapStacks_spec {cur tgt : UInt32} (stack : Stack m [back, cur, tgt]) :
    (m.run swapStacks).mem =
        Function.update (m.push (m.reg .ebp)).mem cur (m.reg .esp - 4) ∧
      (m.run swapStacks).reg .esp = (m.run swapStacks).mem tgt + 4 ∧
      (m.run swapStacks).reg .ebp = (m.run swapStacks).mem ((m.run swapStacks).mem tgt) ∧
      (m.run swapStacks).reg .cr3 = m.reg .cr3 := by
  have pushed : Stack (m.push (m.reg .ebp)) [m.reg .ebp, back, cur, tgt] :=
    stack.push (by simp)
  have pointer : (m.push (m.reg .ebp)).reg .esp = m.reg .esp - 4 := Machine.push_esp
  have first : (m.push (m.reg .ebp)).mem (m.reg .esp - 4 + 8) = cur := by
    rw [← pointer]
    exact pushed.get (k := 2) rfl
  have second : (m.push (m.reg .ebp)).mem (m.reg .esp - 4 + 12) = tgt := by
    rw [← pointer]
    exact pushed.get (k := 3) rfl
  let linked := m.push (m.reg .ebp)
  let loaded := ((linked.setReg .ebp (m.reg .esp - 4)).setReg .ecx cur).setReg .edx tgt
  let stored := loaded.write cur (m.reg .esp - 4)
  have run : m.run swapStacks =
      (stored.setReg .esp (stored.mem tgt)).exec (.pop .ebp) := by
    simp [swapStacks, Machine.exec, loaded, stored, linked, first, second]
  have memory : (m.run swapStacks).mem = stored.mem := by
    rw [run]
    rfl
  have pointed : (stored.setReg .esp (stored.mem tgt)).reg .esp = stored.mem tgt :=
    Machine.setReg_self
  refine ⟨memory, ?_, ?_, ?_⟩
  · rw [memory, run]
    exact (Machine.setReg_of_ne (by decide)).trans
      (Machine.drop_esp.trans (congrArg (· + 4) pointed))
  · rw [memory, run]
    exact Machine.setReg_self.trans (congrArg stored.mem pointed)
  · rw [run]
    simp [Machine.exec, stored, loaded, linked]

/-! ## The switch up to the new stack -/

/-- `sizeof (struct task_struct)`. -/
def taskStructSize : Nat := 68

/-- The words that a switch puts below its return address. -/
def SwitchCode.depth (code : SwitchCode) : Nat := 11 + code.locals

/-- A process whose `task_union` is at `base` has called `task_switch_asm (new)` with its
stack pointer at `offset`, and its stack has room. -/
structure Calling (code : SwitchCode) (base : UInt32) (m : Machine) (offset : Nat)
    (back new : UInt32) : Prop where
  pointer : m.reg .esp = slot base offset
  room : taskStructSize + 4 * code.depth ≤ offset
  top : offset + 8 ≤ 4096
  stack : Stack m [back, new]

/-- The address `a` is in the page at `base`. -/
def InPage (base address : UInt32) : Prop := ∃ k < 4096, address = slot base k

/-- What `kernel_esp` points to when a process has switched away, and what its stack
then holds for `task_switch_asm` to go back to `back`. -/
structure SwitchedAway (code : SwitchCode) (base : UInt32) (offset : Nat) (back : UInt32)
    (reg : Register → UInt32) (mem : UInt32 → UInt32) : Prop where
  kernelEsp : mem (base + kernelEspOffset) = slot base (offset - 4 * code.depth)
  swap : Words mem (slot base (offset - 4 * code.depth)) [slot base (offset - 28), code.afterSwap]
  frame : ∃ new, Words mem (slot base (offset - 28))
    [slot base (offset - 4), code.afterInner, new, reg .edi, reg .esi, reg .ebx, reg .ebp, back]

theorem slot_outside {address : UInt32} {n : Nat}
    (away : ∀ k < n, slot base (i + 4 * k) ≠ address) : Outside address (slot base i) n := by
  intro k few
  rw [slot_add]
  exact away k few

/-- The words of a page do not move when something in another place is written. -/
theorem words_update_beside {mem : UInt32 → UInt32} {address value : UInt32}
    (words : Words mem (slot base i) ws) (inside : i + 4 * ws.length ≤ 4096)
    (away : ¬ InPage base address) :
    Words (Function.update mem address value) (slot base i) ws := by
  refine words.update (slot_outside fun k few same => away ⟨i + 4 * k, by omega, same.symm⟩)

/-- Two stacks with the same words at the same places. -/
theorem words_moved {mem mem' : UInt32 → UInt32} (words : Words mem (slot base i) ws)
    (same : ∀ k < ws.length, mem' (slot other (i + 4 * k)) = mem (slot base (i + 4 * k))) :
    Words mem' (slot other i) ws := by
  induction ws generalizing i with
  | nil => trivial
  | cons w ws inductionHypothesis =>
      have next : ∀ base, slot base i + 4 = slot base (i + 4) := fun base => slot_add base i 4
      obtain ⟨first, rest⟩ := words
      refine ⟨(same 0 (Nat.succ_pos _)).trans first, ?_⟩
      rw [next] at rest ⊢
      apply inductionHypothesis rest
      intro k few
      rw [show i + 4 + 4 * k = i + 4 * (k + 1) by omega]
      exact same (k + 1) (Nat.succ_lt_succ few)

/-- The machine before `stack_swap`. -/
def beforeSwap (code : SwitchCode) (m : Machine) : Machine :=
  (((m.run saveContext).push code.afterInner).run
    (prolog code.locals ++ innerBody code ++ innerArguments)).push code.afterSwap

/-- What `stack_swap` finds: the stack has grown from the call of `task_switch_asm`, except
for the store to `tss.esp0`. -/
structure BeforeSwap (code : SwitchCode) (base : UInt32) (m : Machine) (offset : Nat)
    (back new : UInt32) (m' : Machine) : Prop where
  pointer : m'.reg .esp = slot base (offset - 4 * (code.depth - 1))
  link : m'.reg .ebp = slot base (offset - 28)
  stack : Stack m' [code.afterSwap, base + kernelEspOffset, new + kernelEspOffset]
  frame : Words m'.mem (slot base (offset - 28)) [slot base (offset - 4), code.afterInner, new,
    m.reg .edi, m.reg .esi, m.reg .ebx, m.reg .ebp, back]
  tss : m'.mem code.tssEsp0 = new + unionSize
  cr3 : m'.reg .cr3 = m.mem (new + dirOffset)
  beside : ∀ address, ¬ Below (m.reg .esp) (code.depth - 1) address → address ≠ code.tssEsp0 →
    m'.mem address = m.mem address

variable {offset : Nat}

/-- Addresses below the stack pointer are in the page, above the PCB. -/
theorem below_slot {address : UInt32} {n : Nat} (room : 4 * n ≤ offset)
    (below : Below (slot base offset) n address) :
    ∃ k, offset - 4 * n ≤ k ∧ k < offset ∧ address = slot base k := by
  obtain ⟨j, few, rfl⟩ := below
  rw [slot_sub base (by omega)]
  exact ⟨offset - 4 * (j + 1), by omega, by omega, rfl⟩

theorem beforeSwap_spec (calling : Calling code base m offset back new)
    (aligned : PageAligned base) (newAligned : PageAligned new)
    (tssApart : ¬ InPage base code.tssEsp0) (tssNew : ¬ InPage new code.tssEsp0) :
    BeforeSwap code base m offset back new (beforeSwap code m) := by
  have room := calling.room
  have top := calling.top
  have depth : code.depth = 11 + code.locals := rfl
  unfold taskStructSize at room
  obtain ⟨save, saved, ebp⟩ := saveContext_spec calling.stack (by simp)
  have called : Stack ((m.run saveContext).push code.afterInner) [code.afterInner, new,
      m.reg .edi, m.reg .esi, m.reg .ebx, m.reg .ebp, back, new] := saved.push (by simp)
  have call : Grown 6 m ((m.run saveContext).push code.afterInner) :=
    save.trans (Grown.push _ _)
  have link : ((m.run saveContext).push code.afterInner).reg .ebp = m.reg .esp - 4 :=
    (Machine.push_reg (by decide)).trans ebp
  unfold beforeSwap
  generalize (m.run saveContext).push code.afterInner = inner at called call link ⊢
  obtain ⟨begun, words, frame⟩ := prolog_spec code.locals called (by simp)
  rw [Machine.run_append, Machine.run_append]
  generalize inner.run (prolog code.locals) = body at begun words frame ⊢
  have entry : m.reg .esp - 4 = slot base (offset - 4) := by
    rw [calling.pointer]
    exact slot_sub_four base (by omega)
  have innerPointer : inner.reg .esp = slot base (offset - 24) := by
    rw [call.pointer, calling.pointer]
    exact slot_sub base (by omega)
  have framePointer : inner.reg .esp - 4 = slot base (offset - 28) := by
    rw [innerPointer]
    exact (slot_sub_four base (by omega)).trans (congrArg (slot base) (by omega))
  have grown : Grown (6 + (1 + code.locals)) m body := call.trans begun
  have bodyPointer : body.reg .esp = slot base (offset - 28 - 4 * code.locals) := by
    rw [grown.pointer, calling.pointer]
    exact (slot_sub base (by omega)).trans (congrArg (slot base) (by omega))
  rw [framePointer, link, entry] at words
  rw [framePointer] at frame
  have argument : body.mem (body.reg .ebp + 8) = new := by
    rw [frame]
    exact words.get (k := 2) rfl
  obtain ⟨memory, esp, ebp, eax, cr3⟩ := innerBody_spec code argument
    fun same => tssNew ⟨4, by decide, same.symm⟩
  generalize body.run (innerBody code) = set at memory esp ebp eax cr3 ⊢
  have bare : Stack set [] := trivial
  obtain ⟨args, stack, ebpArgs, cr3Args⟩ := innerArguments_spec aligned
    (esp.trans bodyPointer) (by omega) eax bare (by simp)
  have pushed : Grown 3 set ((set.run innerArguments).push code.afterSwap) :=
    args.trans (Grown.push _ _)
  have setPointer : set.reg .esp = m.reg .esp - UInt32.ofNat (4 * (6 + (1 + code.locals))) :=
    esp.trans grown.pointer
  have frameWords : Words set.mem (slot base (offset - 28)) [slot base (offset - 4),
      code.afterInner, new, m.reg .edi, m.reg .esi, m.reg .ebx, m.reg .ebp, back] := by
    rw [memory]
    refine words_update_beside ?_ (by simp; omega) tssApart
    exact words.take 8
  refine ⟨?_, ?_, stack.push (by simp), ?_, ?_, ?_, ?_⟩
  · rw [pushed.pointer, esp, bodyPointer]
    exact (slot_sub base (by omega)).trans (congrArg (slot base) (by omega))
  · exact (Machine.push_reg (by decide)).trans (ebpArgs.trans (ebp.trans frame))
  · have above : set.reg .esp + UInt32.ofNat (4 * code.locals) = slot base (offset - 28) := by
      rw [esp, bodyPointer, slot_add]
      exact congrArg (slot base) (by omega)
    rw [← above] at frameWords ⊢
    exact pushed.words code.locals (by simp; omega) frameWords
  · rw [pushed.beside, memory, Function.update_self]
    intro below
    rw [esp, bodyPointer] at below
    obtain ⟨k, _, few, same⟩ := below_slot (by omega) below
    exact tssApart ⟨k, by omega, same⟩
  · refine (Machine.push_reg (by decide)).trans (cr3Args.trans (cr3.trans ?_))
    apply grown.beside
    intro below
    rw [calling.pointer] at below
    obtain ⟨k, high, few, same⟩ := below_slot (by omega) below
    have placed : slot new 4 = slot base k := same
    have equal := (slot_inj newAligned aligned (by omega) (by omega) placed).2
    omega
  · intro address away notTss
    have later : ¬ Below (set.reg .esp) 3 address := by
      intro below
      rw [setPointer] at below
      exact away (below.deeper.mono (by omega))
    have earlier : ¬ Below (m.reg .esp) (6 + (1 + code.locals)) address := fun below =>
      away (below.mono (by omega))
    rw [pushed.beside address later, memory, Function.update_of_ne notTss]
    exact grown.beside address earlier

/-- The machine when `stack_swap` is about to return. -/
structure Swapped (code : SwitchCode) (base : UInt32) (m : Machine) (offset : Nat)
    (back new : UInt32) (m' : Machine) : Prop where
  away : SwitchedAway code base offset back m.reg m'.mem
  tss : m'.mem code.tssEsp0 = new + unionSize
  cr3 : m'.reg .cr3 = m.mem (new + dirOffset)
  pointer : m'.reg .esp = m'.mem (new + kernelEspOffset) + 4
  link : m'.reg .ebp = m'.mem (m'.mem (new + kernelEspOffset))
  beside : ∀ address, ¬ Below (m.reg .esp) code.depth address → address ≠ code.tssEsp0 →
    address ≠ base + kernelEspOffset → m'.mem address = m.mem address

theorem swapped_spec {before : Machine} (calling : Calling code base m offset back new)
    (aligned : PageAligned base) (tssApart : ¬ InPage base code.tssEsp0)
    (reached : BeforeSwap code base m offset back new before) :
    Swapped code base m offset back new (before.run swapStacks) := by
  have room := calling.room
  have top := calling.top
  have depth : code.depth = 11 + code.locals := rfl
  unfold taskStructSize at room
  obtain ⟨memory, esp, ebp, cr3⟩ := swapStacks_spec reached.stack
  have pushed : Grown 1 before (before.push (before.reg .ebp)) := Grown.push _ _
  have saved : before.reg .esp - 4 = slot base (offset - 4 * code.depth) := by
    rw [reached.pointer]
    exact (slot_sub_four base (by omega)).trans (congrArg (slot base) (by omega))
  have pcb : base + kernelEspOffset = slot base 16 := rfl
  have notPcb : ∀ k < 4096, k ≠ 16 → slot base k ≠ base + kernelEspOffset := by
    intro k few other same
    exact other (slot_inj aligned aligned few (by omega) (same.trans pcb)).2
  have stack : Stack (before.push (before.reg .ebp)) [before.reg .ebp, code.afterSwap,
      base + kernelEspOffset, new + kernelEspOffset] := reached.stack.push (by simp)
  have top : (before.push (before.reg .ebp)).reg .esp = slot base (offset - 4 * code.depth) :=
    Machine.push_esp.trans saved
  rw [saved] at memory
  generalize before.push (before.reg .ebp) = last at memory pushed stack top
  unfold Stack at stack
  rw [top, reached.link] at stack
  have above : before.reg .esp + UInt32.ofNat (4 * (3 + code.locals)) =
      slot base (offset - 28) := by
    rw [reached.pointer, slot_add]
    exact congrArg (slot base) (by omega)
  have frame := reached.frame
  rw [← above] at frame
  have frameKept := pushed.words (3 + code.locals) (by simp; omega) frame
  rw [above] at frameKept
  have notTss : code.tssEsp0 ≠ base + kernelEspOffset := by
    intro same
    exact tssApart ⟨16, by omega, same⟩
  refine ⟨⟨?_, ?_, new, ?_⟩, ?_, cr3.trans reached.cr3, esp, ebp, ?_⟩
  · rw [memory, Function.update_self]
  · have words := stack.take 2
    rw [memory]
    refine words.update (slot_outside fun k few => notPcb _ ?_ ?_)
    · change k < 2 at few
      omega
    · omega
  · rw [memory]
    refine frameKept.update (slot_outside fun k few => notPcb _ ?_ ?_)
    · change k < 8 at few
      omega
    · omega
  · rw [memory, Function.update_of_ne notTss, pushed.beside, reached.tss]
    intro below
    rw [reached.pointer] at below
    obtain ⟨k, _, few, same⟩ := below_slot (by omega) below
    exact tssApart ⟨k, by omega, same⟩
  · intro address away notTss notPcb
    have later : ¬ Below (before.reg .esp) 1 address := by
      intro below
      have deep : before.reg .esp = m.reg .esp - UInt32.ofNat (4 * (code.depth - 1)) := by
        rw [reached.pointer, calling.pointer]
        exact (slot_sub base (by omega)).symm
      rw [deep] at below
      exact away (below.deeper.mono (by omega))
    rw [memory, Function.update_of_ne notPcb, pushed.beside address later]
    exact reached.beside address (fun below => away (below.mono (by omega))) notTss

/-! ## Back to the caller -/

theorem block_taskSwitchAsm : block code ⟨m, code.taskSwitchAsm⟩ =
    some ⟨(m.run saveContext).push code.afterInner, code.innerTaskSwitch⟩ :=
  if_pos rfl

theorem block_innerTaskSwitch : block code ⟨m, code.innerTaskSwitch⟩ =
    some ⟨(m.run (prolog code.locals ++ innerBody code ++ innerArguments)).push code.afterSwap,
      code.stackSwap⟩ := by
  have distinct := code.distinct
  simp only [List.nodup_cons, List.mem_cons, not_or] at distinct
  unfold block
  rw [if_neg (Ne.symm distinct.1.1), if_pos rfl]

theorem block_stackSwap : block code ⟨m, code.stackSwap⟩ = some (ret (m.run swapStacks)) := by
  have distinct := code.distinct
  simp only [List.nodup_cons, List.mem_cons, not_or] at distinct
  unfold block
  rw [if_neg (Ne.symm distinct.1.2.1), if_neg (Ne.symm distinct.2.1.1), if_pos rfl]

theorem block_afterSwap : block code ⟨m, code.afterSwap⟩ = some (ret (m.run epilog)) := by
  have distinct := code.distinct
  simp only [List.nodup_cons, List.mem_cons, not_or] at distinct
  unfold block
  rw [if_neg (Ne.symm distinct.1.2.2.2.1), if_neg (Ne.symm distinct.2.1.2.2.1),
    if_neg (Ne.symm distinct.2.2.1.2.1), if_pos rfl]

theorem block_afterInner : block code ⟨m, code.afterInner⟩ = some (ret (m.run restoreContext)) := by
  have distinct := code.distinct
  simp only [List.nodup_cons, List.mem_cons, not_or] at distinct
  unfold block
  rw [if_neg (Ne.symm distinct.1.2.2.1), if_neg (Ne.symm distinct.2.1.2.1),
    if_neg (Ne.symm distinct.2.2.1.1), if_neg distinct.2.2.2.1.1, if_pos rfl]

/-- A return to an address outside the code leaves it. -/
theorem block_outside {eip : UInt32} (outside : eip ∉ code.labels) :
    block code ⟨m, eip⟩ = none := by
  simp only [SwitchCode.labels, List.mem_cons, not_or] at outside
  unfold block
  rw [if_neg outside.1, if_neg outside.2.1, if_neg outside.2.2.1, if_neg outside.2.2.2.2.1,
    if_neg outside.2.2.2.1]

theorem blocks_succ {cpu next : Cpu} (found : block code cpu = some next) (fuel : Nat) :
    blocks code (fuel + 1) cpu = blocks code fuel next := by
  rw [blocks, found]

/-- The argument is taken off. -/
theorem restoreContext_run (m : Machine) :
    m.run restoreContext = m.drop.run ([.edi, .esi, .ebx, .ebp].map .pop) :=
  Machine.run_cons _ _

/-- What `stack_swap` leads to when the new process had switched away: its
`inner_task_switch` and its `task_switch_asm` return. -/
theorem resumed_spec {reg : Register → UInt32}
    (away : SwitchedAway code base offset back reg m.mem) (deep : 28 ≤ offset)
    (pointer : m.reg .esp = m.mem (base + kernelEspOffset) + 4)
    (link : m.reg .ebp = m.mem (m.mem (base + kernelEspOffset))) :
    ∃ m', blocks code 2 (ret m) = ⟨m', back⟩ ∧ m'.mem = m.mem ∧
      m'.reg .esp = slot base (offset + 4) ∧ m'.reg .cr3 = m.reg .cr3 ∧
      ∀ r ∈ [Register.ebp, .ebx, .esi, .edi], m'.reg r = reg r := by
  obtain ⟨kernelEsp, swap, new, frame⟩ := away
  rw [kernelEsp] at pointer link
  have returnSwap : m.mem (m.reg .esp) = code.afterSwap := by
    rw [pointer]
    exact swap.2.1
  have linked : m.drop.reg .ebp = slot base (offset - 28) :=
    (Machine.drop_reg (by decide)).trans (link.trans swap.1)
  have first : ret m = ⟨m.drop, code.afterSwap⟩ := congrArg (Cpu.mk m.drop) returnSwap
  let unwound := m.drop.setReg .esp (m.drop.reg .ebp)
  have stacked : Stack unwound [slot base (offset - 4), code.afterInner, new, reg .edi, reg .esi,
      reg .ebx, reg .ebp, back] := by
    unfold Stack
    rw [show unwound.reg .esp = m.drop.reg .ebp from Machine.setReg_self, linked]
    exact frame
  have unlinked : Stack (unwound.exec (.pop .ebp)) [code.afterInner, new, reg .edi, reg .esi,
      reg .ebx, reg .ebp, back] := (stacked.exec_pop (by decide)).1
  have second : ret (m.drop.run epilog) =
      ⟨(unwound.exec (.pop .ebp)).drop, code.afterInner⟩ :=
    congrArg (Cpu.mk _) unlinked.top
  have contents : Stack (unwound.exec (.pop .ebp)).drop.drop
      ([reg .edi, reg .esi, reg .ebx, reg .ebp] ++ [back]) := unlinked.drop.drop
  have restore : (unwound.exec (.pop .ebp)).drop.run restoreContext =
      (unwound.exec (.pop .ebp)).drop.drop.run ([.edi, .esi, .ebx, .ebp].map .pop) :=
    restoreContext_run _
  have memory : (unwound.exec (.pop .ebp)).drop.drop.mem = m.mem := rfl
  have savedPointer : (unwound.exec (.pop .ebp)).drop.drop.reg .esp =
      slot base (offset - 28) + 4 + 4 + 4 := by
    rw [← linked]
    simp [unwound, Machine.exec]
  have cr3 : (unwound.exec (.pop .ebp)).drop.drop.reg .cr3 = m.reg .cr3 := by
    simp [unwound, Machine.exec]
  generalize (unwound.exec (.pop .ebp)).drop.drop = saved at contents restore memory savedPointer cr3
  obtain ⟨restored, pairs, others, up⟩ := contents.run_pop [.edi, .esi, .ebx, .ebp]
    [reg .edi, reg .esi, reg .ebx, reg .ebp] (by decide) (by decide) rfl
  have memoryAfter := Stack.run_pop_mem (m := saved) [.edi, .esi, .ebx, .ebp]
  generalize saved.run ([.edi, .esi, .ebx, .ebp].map .pop) = after at *
  have third : ret ((unwound.exec (.pop .ebp)).drop.run restoreContext) = ⟨after.drop, back⟩ := by
    rw [restore]
    exact congrArg (Cpu.mk _) restored.top
  refine ⟨after.drop, ?_, memoryAfter.trans memory, ?_, ?_, ?_⟩
  · rw [first, blocks_succ block_afterSwap, second, blocks_succ block_afterInner, third]
    rfl
  · rw [Machine.drop_esp, up, savedPointer]
    change slot base (offset - 28) + 4 + 4 + 4 + 16 + 4 = _
    rw [show offset + 4 = offset - 28 + 32 by omega, ← slot_add]
    change _ = slot base (offset - 28) + (4 + 4 + 4 + 16 + 4)
    abel
  · rw [Machine.drop_reg (by decide), others .cr3 (by decide) (by decide)]
    exact cr3
  · intro r member
    have notEsp : r ≠ .esp := by
      revert r
      decide
    rw [Machine.drop_reg notEsp]
    apply pairs (r, reg r)
    revert r
    simp

end Zeos.Switch
