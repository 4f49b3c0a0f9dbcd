import Zeos.Library.Assembly

/-!
# The system call gate

`entry.S` and `sys_call_table.S`.  A C function is a change of the machine from its
entry to its return, with its return address on top of the stack; the functions that
the gate calls are parameters and follow the calling convention.
-/

namespace Zeos.Switch

open Zeos.Library

/-- The functions in the system call table. -/
inductive ServiceRoutine where
  | sysNiSyscall
  | sysExit
  | sysFork
  | sysRead
  | sysWrite
  | sysGettime
  | sysSbrk
  | sysClone
  | sysGetpid
  | sysSemInit
  | sysSemWait
  | sysSemSignal
  | sysSemDestroy
  | sysGetStats
  deriving DecidableEq

/-- `sys_call_table`. -/
def sysCallTable : List ServiceRoutine :=
  [.sysNiSyscall, .sysExit, .sysFork, .sysRead, .sysWrite,
    .sysNiSyscall, .sysNiSyscall, .sysNiSyscall, .sysNiSyscall, .sysNiSyscall,
    .sysGettime, .sysNiSyscall, .sysSbrk, .sysNiSyscall, .sysNiSyscall,
    .sysNiSyscall, .sysNiSyscall, .sysNiSyscall, .sysNiSyscall, .sysClone,
    .sysGetpid, .sysSemInit, .sysSemWait, .sysSemSignal, .sysSemDestroy,
    .sysNiSyscall, .sysNiSyscall, .sysNiSyscall, .sysNiSyscall, .sysNiSyscall,
    .sysNiSyscall, .sysNiSyscall, .sysNiSyscall, .sysNiSyscall, .sysNiSyscall,
    .sysGetStats]

/-- `MAX_SYSCALL`, the number of entries. -/
def maxSyscall : Nat := sysCallTable.length

def kernelDs : UInt32 := 0x18

/-- `-ENOSYS`. -/
def minusEnosys : UInt32 := -38

def saveAll : List Instr :=
  [.push .gs, .push .fs, .push .es, .push .ds, .push .eax, .push .ebp, .push .edi,
    .push .esi, .push .edx, .push .ecx, .push .ebx,
    .movImm kernelDs .edx, .mov .edx .ds, .mov .edx .es]

def restoreAll : List Instr :=
  [.pop .ebx, .pop .ecx, .pop .edx, .pop .esi, .pop .edi, .pop .ebp, .pop .eax,
    .pop .ds, .pop .es, .pop .fs, .pop .gs]

def saveRegs : List Instr :=
  [.push .eax, .push .edi, .push .esi, .push .edx, .push .ecx, .push .ebx]

def restoreRegs : List Instr :=
  [.pop .ebx, .pop .ecx, .pop .edx, .pop .esi, .pop .edi, .pop .eax]

/-- What the gate calls: the code of each function, from its entry to its return,
the code at the address that lies behind the table, and the return addresses. -/
structure GateCode where
  userToSysStats : Machine → Machine
  sysToUserStats : Machine → Machine
  routine : ServiceRoutine → Machine → Machine
  behind : Machine → Machine
  returnUserToSys : UInt32
  returnRoutine : UInt32
  returnSysToUser : UInt32

/-- `system_call_handler` up to `call *sys_call_table`, if it gets there. -/
def enterGate (code : GateCode) (m : Machine) : Option Machine :=
  let m := m.run saveAll
  if (m.reg .eax).toInt32.toInt < 0 then none
  else if (m.reg .eax).toInt32.toInt > maxSyscall then none
  else
    let m := (m.run saveRegs).push code.returnUserToSys
    some (((code.userToSysStats m).run restoreRegs).push code.returnRoutine)

/-- The function that is called, with `eax` as the index into the table. -/
def callee (code : GateCode) (entry : Machine) : Machine → Machine :=
  match sysCallTable[(entry.reg .eax).toNat]? with
  | some routine => code.routine routine
  | none => code.behind

/-- `system_call_handler` after the function returned. -/
def leaveGate (code : GateCode) (m : Machine) : Machine :=
  let m := (m.run saveRegs).push code.returnSysToUser
  ((code.sysToUserStats m).run restoreRegs).run (.store .eax 0x18 .esp :: restoreAll)

/-- `system_call_handler` after `err`. -/
def refuse (m : Machine) : Machine :=
  ((m.run saveAll).run [.movImm minusEnosys .eax]).run (.store .eax 0x18 .esp :: restoreAll)

/-- `system_call_handler` up to `iret`. -/
def systemCallHandler (code : GateCode) (m : Machine) : Machine :=
  match enterGate code m with
  | some entry => leaveGate code (callee code entry entry)
  | none => refuse m

/-- The C calling convention on a stack that ends at `top`: the return address is
popped, `ebx`, `esi`, `edi` and `ebp` are kept, and so is all of the stack above the
return address. -/
structure Conforms (top : UInt32) (f : Machine → Machine) : Prop where
  esp : ∀ m, (f m).reg .esp = m.reg .esp + 4
  saved : ∀ m, ∀ r ∈ [Register.ebx, .esi, .edi, .ebp], (f m).reg r = m.reg r
  stack : ∀ m back ws, m.reg .esp + UInt32.ofNat (4 * (ws.length + 1)) = top →
    Stack m (back :: ws) → ws.length < 1024 → Stack (f m) ws

/-! ## What the gate saves -/

/-- What `SAVE_ALL` leaves on the stack, `ebx` on top. -/
def saved (m : Machine) : List UInt32 :=
  [m.reg .ebx, m.reg .ecx, m.reg .edx, m.reg .esi, m.reg .edi, m.reg .ebp, m.reg .eax,
    m.reg .ds, m.reg .es, m.reg .fs, m.reg .gs]

variable {top : UInt32} {m m' : Machine} {ws frame : List UInt32} {code : GateCode}
  {f : Machine → Machine} {back : UInt32}

/-- The registers that `SAVE_ALL` pushes. -/
def allSaved : List Register :=
  [.gs, .fs, .es, .ds, .eax, .ebp, .edi, .esi, .edx, .ecx, .ebx]

/-- The registers that `SAVE_REGS` pushes. -/
def regsSaved : List Register := [.eax, .edi, .esi, .edx, .ecx, .ebx]

theorem saveAll_eq : saveAll = allSaved.map .push ++
    [.movImm kernelDs .edx, .mov .edx .ds, .mov .edx .es] := rfl

theorem saveAll_saves (stack : Stack m ws) (few : ws.length < 1024) :
    Stack (m.run saveAll) (saved m ++ ws) ∧ (m.run saveAll).reg .eax = m.reg .eax ∧
      (m.run saveAll).reg .esp = m.reg .esp - 44 := by
  have count : allSaved.length = 11 := rfl
  obtain ⟨pushed, same, pointer⟩ := stack.run_push allSaved (by omega) (by decide)
  rw [saveAll_eq, Machine.run_append]
  generalize m.run (allSaved.map .push) = after at pushed same pointer ⊢
  refine ⟨?_, same .eax (by decide), pointer⟩
  change Stack (((after.setReg .edx kernelDs).setReg .ds _).setReg .es _) _
  exact ((pushed.setReg (by decide)).setReg (by decide)).setReg (by decide)

/-- A C function is called between `SAVE_REGS` and `RESTORE_REGS`. -/
theorem savedCall (conforms : Conforms top f) (stack : Stack m ws)
    (total : m.reg .esp + UInt32.ofNat (4 * ws.length) = top) (few : ws.length < 1000) :
    let after := (f ((m.run saveRegs).push back)).run restoreRegs
    Stack after ws ∧ after.reg .esp = m.reg .esp ∧ after.reg .eax = m.reg .eax := by
  intro after
  have count : regsSaved.length = 6 := rfl
  obtain ⟨pushed, same, pointer⟩ := stack.run_push regsSaved (by omega) (by decide)
  have called : Stack ((m.run saveRegs).push back)
      (back :: ((regsSaved.map m.reg).reverse ++ ws)) :=
    pushed.push (by simp [count]; omega)
  have esp := conforms.esp ((m.run saveRegs).push back)
  have pointed : ((m.run saveRegs).push back).reg .esp = m.reg .esp - 24 - 4 := by
    rw [Machine.push_esp]
    exact congrArg (· - 4) pointer
  have returned := conforms.stack _ back _ ?_ called (by simp [count]; omega)
  · obtain ⟨popped, pairs, _, up⟩ := returned.run_pop regsSaved.reverse
      (regsSaved.map m.reg).reverse (by decide) (by decide) (by simp)
    refine ⟨popped, ?_, pairs (.eax, m.reg .eax) (by simp [regsSaved])⟩
    have restored : after.reg .esp = m.reg .esp - 24 - 4 + 4 + 24 := by
      rw [← pointed, ← esp]
      exact up
    rw [restored, UInt32.sub_add_cancel, UInt32.sub_add_cancel]
  · rw [pointed, List.length_append, List.length_reverse, List.length_map, count, ← total,
      show 4 * (6 + ws.length + 1) = 28 + 4 * ws.length by omega, UInt32.ofNat_add,
      show UInt32.ofNat 28 = 4 + 24 from rfl]
    abel

theorem restoreAll_eq : restoreAll = allSaved.reverse.map .pop := rfl

/-- `movl %eax, 0x18(%esp)` changes what was saved of `eax`. -/
theorem store_saved {trap : Machine} (stack : Stack m (saved trap ++ frame))
    (few : frame.length < 1000) :
    Stack (m.exec (.store .eax 0x18 .esp)) ((saved trap).set 6 (m.reg .eax) ++ frame) := by
  have sixth : (0x18 : UInt32) = UInt32.ofNat (4 * 6) := rfl
  have words : Words (Function.update m.mem (m.reg .esp + UInt32.ofNat (4 * 6)) (m.reg .eax))
      (m.reg .esp) ((saved trap ++ frame).set 6 (m.reg .eax)) :=
    Words.set stack (by simp [saved]; omega) 6 (by simp [saved])
  rw [← sixth] at words
  exact words

/-- `RESTORE_ALL` brings back what was saved at `trap`, with another `eax`. -/
theorem restoreAll_restores {trap : Machine} {result : UInt32}
    (stack : Stack m ((saved trap).set 6 result ++ frame)) :
    Stack (m.run restoreAll) frame ∧ (m.run restoreAll).reg .esp = m.reg .esp + 44 ∧
      (m.run restoreAll).reg .eax = result ∧
      ∀ r ∈ allSaved, r ≠ .eax → (m.run restoreAll).reg r = trap.reg r := by
  rw [restoreAll_eq]
  obtain ⟨popped, pairs, _, up⟩ := Stack.run_pop allSaved.reverse ((saved trap).set 6 result)
    (by decide) (by decide) rfl stack
  refine ⟨popped, up, pairs (.eax, result) (by simp [allSaved, saved]), ?_⟩
  intro r member other
  apply pairs (r, trap.reg r)
  revert r
  simp [allSaved, saved]

/-- The end of the gate, with what `SAVE_ALL` saved at `trap`. -/
theorem finish_restores {trap : Machine} (stack : Stack m (saved trap ++ frame))
    (few : frame.length < 1000) :
    Stack (m.run (.store .eax 0x18 .esp :: restoreAll)) frame ∧
      (m.run (.store .eax 0x18 .esp :: restoreAll)).reg .esp = m.reg .esp + 44 ∧
      (m.run (.store .eax 0x18 .esp :: restoreAll)).reg .eax = m.reg .eax ∧
      ∀ r ∈ allSaved, r ≠ .eax →
        (m.run (.store .eax 0x18 .esp :: restoreAll)).reg r = trap.reg r := by
  rw [Machine.run_cons]
  exact restoreAll_restores (store_saved stack few)

/-! ## The gate -/

/-- The number in `eax` is the index of an entry. -/
def Numbered (m : Machine) : Prop :=
  0 ≤ (m.reg .eax).toInt32.toInt ∧ (m.reg .eax).toInt32.toInt < sysCallTable.length

/-- What the gate is for: from a trap with `frame` on the stack, call the numbered
entry with three arguments, and go back with its result and all other registers. -/
structure GateCorrect (code : GateCode) (m : Machine) (frame : List UInt32) : Prop where
  called : (enterGate code m).isSome = true ↔ Numbered m
  entry : ∀ entry, enterGate code m = some entry →
    (∃ routine, sysCallTable[(m.reg .eax).toNat]? = some routine ∧
      callee code entry = code.routine routine) ∧
    Words entry.mem (entry.reg .esp + 4) [m.reg .ebx, m.reg .ecx, m.reg .edx]
  result : (systemCallHandler code m).reg .eax =
    match enterGate code m with
    | some entry => (callee code entry entry).reg .eax
    | none => minusEnosys
  registers : ∀ r ∈ allSaved, r ≠ .eax → (systemCallHandler code m).reg r = m.reg r
  pointer : (systemCallHandler code m).reg .esp = m.reg .esp
  frame : Stack (systemCallHandler code m) frame

theorem signed_cases (word : UInt32) :
    (word.toNat < 2 ^ 31 ∧ word.toInt32.toInt = word.toNat) ∨
      (2 ^ 31 ≤ word.toNat ∧ word.toInt32.toInt = (word.toNat : Int) - 2 ^ 32) := by
  have signed : word.toInt32.toInt =
      if 2 * word.toNat < 2 ^ 32 then (word.toNat : Int) else (word.toNat : Int) - 2 ^ 32 :=
    BitVec.toInt_eq_toNat_cond word.toBitVec
  split_ifs at signed
  · exact Or.inl ⟨by omega, signed⟩
  · exact Or.inr ⟨by omega, signed⟩

/-- The machine at the entry of the called function. -/
def callEntry (code : GateCode) (m : Machine) : Machine :=
  ((code.userToSysStats (((m.run saveAll).run saveRegs).push code.returnUserToSys)).run
    restoreRegs).push code.returnRoutine

/-- The two comparisons. -/
theorem enterGate_eq (stack : Stack m ws) (few : ws.length < 1024) :
    enterGate code m =
      if 0 ≤ (m.reg .eax).toInt32.toInt ∧ (m.reg .eax).toInt32.toInt ≤ maxSyscall then
        some (callEntry code m)
      else none := by
  have same := (saveAll_saves stack few).2.1
  unfold enterGate
  dsimp only
  rw [same]
  split_ifs with negative large fits fits fits
  · omega
  · rfl
  · omega
  · rfl
  · rfl
  · omega

variable {eip cs eflags esp ss : UInt32}

/-- The called function finds its arguments, and above them all that is to be
restored. -/
theorem callEntry_stack (userToSys : Conforms top code.userToSysStats)
    (trap : Stack m [eip, cs, eflags, esp, ss]) (start : m.reg .esp + 20 = top) :
    Stack (callEntry code m) (code.returnRoutine :: (saved m ++ [eip, cs, eflags, esp, ss])) ∧
      (callEntry code m).reg .eax = m.reg .eax ∧
      (callEntry code m).reg .esp = m.reg .esp - 44 - 4 := by
  obtain ⟨stacked, eax, pointer⟩ := saveAll_saves trap (by simp)
  have total : (m.run saveAll).reg .esp + UInt32.ofNat (4 * 16) = top := by
    rw [pointer, ← start, show UInt32.ofNat (4 * 16) = 44 + 20 from rfl]
    abel
  obtain ⟨stack, pointerAfter, eaxAfter⟩ := savedCall userToSys stacked total (by simp [saved])
  refine ⟨stack.push (by simp [saved]), ?_, ?_⟩
  · exact (Machine.push_reg (by decide)).trans (eaxAfter.trans eax)
  · exact Machine.push_esp.trans (congrArg (· - 4) (pointerAfter.trans pointer))

/-- After the function returned, everything but `eax` is as it was at `m`. -/
theorem leaveGate_restores {after : Machine} (sysToUser : Conforms top code.sysToUserStats)
    (stack : Stack after (saved m ++ [eip, cs, eflags, esp, ss]))
    (pointer : after.reg .esp = m.reg .esp - 44) (start : m.reg .esp + 20 = top) :
    Stack (leaveGate code after) [eip, cs, eflags, esp, ss] ∧
      (leaveGate code after).reg .esp = m.reg .esp ∧
      (leaveGate code after).reg .eax = after.reg .eax ∧
      ∀ r ∈ allSaved, r ≠ .eax → (leaveGate code after).reg r = m.reg r := by
  have total : after.reg .esp + UInt32.ofNat (4 * 16) = top := by
    rw [pointer, ← start, show UInt32.ofNat (4 * 16) = 44 + 20 from rfl]
    abel
  obtain ⟨stacked, pointerAfter, eax⟩ := savedCall sysToUser stack total (by simp [saved])
  obtain ⟨frame, up, result, restored⟩ := finish_restores stacked (by simp)
  refine ⟨frame, ?_, result.trans eax, restored⟩
  refine up.trans ?_
  rw [pointerAfter, pointer, UInt32.sub_add_cancel]

theorem refuse_restores (trap : Stack m [eip, cs, eflags, esp, ss]) :
    Stack (refuse m) [eip, cs, eflags, esp, ss] ∧ (refuse m).reg .esp = m.reg .esp ∧
      (refuse m).reg .eax = minusEnosys ∧
      ∀ r ∈ allSaved, r ≠ .eax → (refuse m).reg r = m.reg r := by
  obtain ⟨stacked, _, pointer⟩ := saveAll_saves trap (by simp)
  have failed : Stack ((m.run saveAll).setReg .eax minusEnosys)
      (saved m ++ [eip, cs, eflags, esp, ss]) := stacked.setReg (by decide)
  obtain ⟨frame, up, result, restored⟩ := finish_restores failed (by simp)
  refine ⟨frame, ?_, result.trans Machine.setReg_self, restored⟩
  refine up.trans ?_
  rw [Machine.setReg_of_ne (by decide), pointer, UInt32.sub_add_cancel]

/-- The gate is correct for every number but 36, which passes the comparison with
`MAX_SYSCALL` although it is behind the last entry. -/
theorem gate_exact (userToSys : Conforms top code.userToSysStats)
    (sysToUser : Conforms top code.sysToUserStats)
    (routines : ∀ routine, Conforms top (code.routine routine))
    (trap : Stack m [eip, cs, eflags, esp, ss]) (start : m.reg .esp + 20 = top) :
    GateCorrect code m [eip, cs, eflags, esp, ss] ↔ m.reg .eax ≠ 36 := by
  have entering : enterGate code m = _ := enterGate_eq trap (by simp)
  have entries : sysCallTable.length = 36 := rfl
  have largest : maxSyscall = 36 := rfl
  have signed := signed_cases (m.reg .eax)
  constructor
  · intro correct isLast
    have value : (m.reg .eax).toInt32.toInt = 36 := by
      rw [isLast]
      rfl
    have numbered := correct.called.mp (by rw [entering, if_pos (by omega)]; rfl)
    have below := numbered.2
    rw [value, entries] at below
    exact absurd below (by decide)
  · intro notLast
    have notValue : (m.reg .eax).toInt32.toInt ≠ 36 := by
      intro value
      apply notLast
      apply UInt32.toNat_inj.mp
      change (m.reg .eax).toNat = 36
      have bounded := (m.reg .eax).toNat_lt
      rcases signed with ⟨_, same⟩ | ⟨_, same⟩ <;> omega
    by_cases numbered : Numbered m
    · have bounds := numbered
      unfold Numbered at bounds
      rw [if_pos (by omega)] at entering
      obtain ⟨stack, eax, pointer⟩ := callEntry_stack userToSys trap start
      have inTable : (m.reg .eax).toNat < sysCallTable.length := by
        have bounded := (m.reg .eax).toNat_lt
        rw [entries]
        rcases signed with ⟨_, same⟩ | ⟨_, same⟩ <;> omega
      have isCallee : callee code (callEntry code m) =
          code.routine sysCallTable[(m.reg .eax).toNat] := by
        unfold callee
        rw [eax, List.getElem?_eq_getElem inTable]
      have conforms := routines sysCallTable[(m.reg .eax).toNat]
      have returned := conforms.stack _ _ _ ?_ stack (by simp [saved])
      · have up := conforms.esp (callEntry code m)
        rw [pointer, UInt32.sub_add_cancel] at up
        rw [← isCallee] at returned up
        obtain ⟨frame, esp, result, registers⟩ :=
          leaveGate_restores sysToUser returned up start
        have handled : systemCallHandler code m =
            leaveGate code (callee code (callEntry code m) (callEntry code m)) := by
          unfold systemCallHandler
          rw [entering]
        refine ⟨⟨fun _ => numbered, fun _ => by rw [entering]; rfl⟩, ?_, ?_, ?_, ?_, ?_⟩
        · intro entry found
          rw [entering] at found
          cases found
          exact ⟨⟨_, List.getElem?_eq_getElem inTable, isCallee⟩, stack.2.1, stack.2.2.1,
            stack.2.2.2.1, trivial⟩
        · rw [handled, entering]
          exact result
        · rw [handled]
          exact registers
        · rw [handled]
          exact esp
        · rw [handled]
          exact frame
      · rw [pointer, ← start]
        change m.reg .esp - 44 - 4 + UInt32.ofNat (4 * 17) = _
        rw [show UInt32.ofNat (4 * 17) = 4 + 44 + 20 from rfl]
        abel
    · have outside : ¬ (0 ≤ (m.reg .eax).toInt32.toInt ∧
          (m.reg .eax).toInt32.toInt ≤ maxSyscall) := by
        intro inside
        apply numbered
        unfold Numbered
        omega
      rw [if_neg outside] at entering
      obtain ⟨frame, esp, result, registers⟩ := refuse_restores trap
      have handled : systemCallHandler code m = refuse m := by
        unfold systemCallHandler
        rw [entering]
      refine ⟨⟨fun some => ?_, fun isNumbered => absurd isNumbered numbered⟩, ?_, ?_, ?_, ?_, ?_⟩
      · rw [entering] at some
        cases some
      · intro entry found
        rw [entering] at found
        cases found
      · rw [handled, entering]
        exact result
      · rw [handled]
        exact registers
      · rw [handled]
        exact esp
      · rw [handled]
        exact frame

/-- A function that only returns a value. -/
def returning (value : UInt32) (m : Machine) : Machine := (m.setReg .eax value).drop

theorem returning_conforms (value : UInt32) : Conforms top (returning value) where
  esp m := by
    unfold returning
    rw [Machine.drop_esp, Machine.setReg_of_ne (by decide)]
  saved m r member := by
    have others : r ≠ .esp ∧ r ≠ .eax := by
      revert r
      decide
    unfold returning
    rw [Machine.drop_reg others.1, Machine.setReg_of_ne others.2]
  stack m back ws _ stack _ := (stack.setReg (by decide)).drop

/-- Every entry of the table returns 7. -/
def plainCode : GateCode where
  userToSysStats := returning 0
  sysToUserStats := returning 0
  routine _ := returning 7
  behind := returning 9
  returnUserToSys := 0x10100
  returnRoutine := 0x10200
  returnSysToUser := 0x10300

/-- A trap with a number in `eax`, on a stack that ends at `0x2000`. -/
def trapWith (number : UInt32) : Machine where
  reg r := if r = .esp then 0x1fec else if r = .eax then number else 0
  mem _ := 0

theorem trapWith_stack (number : UInt32) : Stack (trapWith number) [0, 0, 0, 0, 0] :=
  ⟨rfl, rfl, rfl, rfl, rfl, trivial⟩

/-- `getpid`. -/
theorem gate_exact_getpid : GateCorrect plainCode (trapWith 20) [0, 0, 0, 0, 0] :=
  (gate_exact (returning_conforms 0) (returning_conforms 0) (fun _ => returning_conforms 7)
    (trapWith_stack 20) (show (trapWith 20).reg .esp + 20 = 0x2000 from rfl)).mpr (by decide)

/-- 36 passes the comparison, and what lies behind the table is called. -/
theorem gate_behind_table :
    (∃ entry, enterGate plainCode (trapWith 36) = some entry ∧
      callee plainCode entry = plainCode.behind) ∧
    ¬ Numbered (trapWith 36) ∧ ¬ GateCorrect plainCode (trapWith 36) [0, 0, 0, 0, 0] := by
  have beyond : ¬ Numbered (trapWith 36) := by
    intro numbered
    exact absurd numbered.2 (by decide)
  have entering : enterGate plainCode (trapWith 36) = _ :=
    enterGate_eq (trapWith_stack 36) (by simp)
  rw [if_pos (by decide)] at entering
  have eax : (callEntry plainCode (trapWith 36)).reg .eax = 36 :=
    (callEntry_stack (returning_conforms 0) (trapWith_stack 36)
      (show (trapWith 36).reg .esp + 20 = 0x2000 from rfl)).2.1
  refine ⟨⟨_, entering, ?_⟩, beyond, fun correct => ?_⟩
  · unfold callee
    rw [eax]
    rfl
  · exact beyond (correct.called.mp (by rw [entering]; rfl))

end Zeos.Switch
