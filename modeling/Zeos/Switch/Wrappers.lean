import Zeos.Switch.Interrupts

/-!
# The system call wrappers

`wrappers.S`: the functions of the C library that call the kernel.  A wrapper takes its
arguments from the stack to the registers of the gate, and makes a negative result -1 with
the code of the error in `errno`.
-/

namespace Zeos.Switch

open Zeos.Library

/-! ## `wrappers.S` -/

/-- Where a wrapper compares the result with 0. -/
inductive Check where
  /-- In its own frame, before the registers are popped. -/
  | beforePops
  | afterPops
  | absent
  deriving DecidableEq

/-- What a wrapper pushes behind `%ebp`, the registers that it loads from `8(%ebp)` on, and
the number of the call. -/
structure Wrapper where
  saves : List Register
  parameters : List Register
  number : UInt32
  check : Check
  deriving DecidableEq

/-- `movl 8(%ebp), %ebx` and so on. -/
def recoverParameters (parameters : List Register) (disp : UInt32) : List Instr :=
  match parameters with
  | [] => []
  | dest :: parameters => .load disp .ebp dest :: recoverParameters parameters (disp + 4)

/-- `/*manage error/result*/`. -/
def manageError (errno : UInt32) (m : Machine) : Machine :=
  if (m.reg .eax).toInt32.toInt ≥ 0 then m
  else
    let m := m.setReg .eax (m.reg .eax * -1)
    let m := m.write errno (m.reg .eax)
    m.setReg .eax (-1)

namespace Wrapper

def write : Wrapper := ⟨[.ebx], [.ebx, .ecx, .edx], 4, .afterPops⟩

def read : Wrapper := ⟨[.ebx], [.ebx, .ecx, .edx], 3, .afterPops⟩

def gettime : Wrapper := ⟨[], [], 10, .afterPops⟩

def getpid : Wrapper := ⟨[], [], 20, .absent⟩

def fork : Wrapper := ⟨[], [], 2, .afterPops⟩

def exit : Wrapper := ⟨[], [], 1, .absent⟩

def getStats : Wrapper := ⟨[.ebx, .ecx], [.ebx, .ecx], 35, .beforePops⟩

def clone : Wrapper := ⟨[.ebx], [.ebx, .ecx], 19, .afterPops⟩

def semInit : Wrapper := ⟨[.ebx], [.ebx, .ecx], 21, .afterPops⟩

def semWait : Wrapper := ⟨[.ebx], [.ebx], 22, .afterPops⟩

def semSignal : Wrapper := ⟨[.ebx], [.ebx], 23, .afterPops⟩

def semDestroy : Wrapper := ⟨[.ebx], [.ebx], 24, .afterPops⟩

def sbrk : Wrapper := ⟨[.ebx], [.ebx], 12, .afterPops⟩

/-- Up to `int $0x80`. -/
def before (w : Wrapper) : List Instr :=
  [.push .ebp, .mov .esp .ebp] ++ w.saves.map .push ++ recoverParameters w.parameters 8 ++
    [.movImm w.number .eax]

/-- `/*recover context*/`. -/
def recoverContext (w : Wrapper) : List Instr := (w.saves.reverse ++ [Register.ebp]).map .pop

/-- From the return of the kernel up to `ret`. -/
def after (w : Wrapper) (errno : UInt32) (m : Machine) : Machine :=
  match w.check with
  | .beforePops => (manageError errno m).run w.recoverContext
  | .afterPops => manageError errno (m.run w.recoverContext)
  | .absent => m.run w.recoverContext

end Wrapper

/-- Every wrapper, with the service routine of its name. -/
def wrappers : List (Wrapper × ServiceRoutine) :=
  [(.write, .sysWrite), (.read, .sysRead), (.gettime, .sysGettime), (.getpid, .sysGetpid),
    (.fork, .sysFork), (.exit, .sysExit), (.getStats, .sysGetStats), (.clone, .sysClone),
    (.semInit, .sysSemInit), (.semWait, .sysSemWait), (.semSignal, .sysSemSignal),
    (.semDestroy, .sysSemDestroy), (.sbrk, .sysSbrk)]

/-! ## A call -/

/-- What a call needs of its surroundings: the table of the gates, `tss.esp0`, the functions
behind the gate, the address of `errno` and that of the instruction behind `int`. -/
structure Linked where
  idt : UInt8 → Gate
  esp0 : UInt32
  code : GateCode
  errno : UInt32
  resume : UInt32

namespace Linked

/-- The processor at `int $0x80`. -/
def atInt (linked : Linked) (w : Wrapper) (p : Processor) : Processor :=
  { p with machine := p.machine.run w.before, eip := linked.resume }

/-- The processor at the first instruction of `system_call_handler`. -/
def inKernel (linked : Linked) (w : Wrapper) (p : Processor) : Option Processor :=
  (linked.idt 0x80).decode.bind fun gate =>
    (linked.atInt w p).callGate gate linked.esp0 kernelDs

/-- The processor back in the wrapper. -/
def fromKernel (linked : Linked) (inner : Processor) : Processor :=
  { inner with machine := systemCallHandler linked.code inner.machine : Processor }.iret

/-- `ret`. -/
def ret (p : Processor) : Processor :=
  { p with machine := p.machine.drop, eip := p.machine.mem (p.machine.reg .esp) }

/-- A call of a wrapper, from its first instruction to its return. -/
def call (linked : Linked) (w : Wrapper) (p : Processor) : Option Processor :=
  (linked.inKernel w p).map fun inner =>
    let p := linked.fromKernel inner
    ret { p with machine := w.after linked.errno p.machine }

end Linked

/-! ## Before the gate -/

variable {m m' : Machine} {ws args : List UInt32} {w : Wrapper} {routine : ServiceRoutine}
  {back top address errno : UInt32} {f : Machine → Machine}

/-- Parameters are loaded from the words above the return address. -/
theorem recoverParameters_spec (parameters : List Register) (disp : UInt32)
    (distinct : parameters.Nodup) (others : .ebp ∉ parameters ∧ .esp ∉ parameters)
    (words : Words m.mem (m.reg .ebp + disp) args) (full : args.length = parameters.length) :
    (m.run (recoverParameters parameters disp)).mem = m.mem ∧
      (∀ r, r ∉ parameters → (m.run (recoverParameters parameters disp)).reg r = m.reg r) ∧
      parameters.map (m.run (recoverParameters parameters disp)).reg = args := by
  induction parameters generalizing m disp args with
  | nil =>
      rw [List.length_nil, List.length_eq_zero_iff] at full
      subst full
      exact ⟨rfl, fun _ _ => rfl, rfl⟩
  | cons dest parameters inductionHypothesis =>
      obtain ⟨fresh, distinctLater⟩ := List.nodup_cons.mp distinct
      simp only [List.mem_cons, not_or] at others
      obtain ⟨⟨notEbp, laterEbp⟩, notEsp, laterEsp⟩ := others
      cases args with
      | nil => simp at full
      | cons w args =>
          let loaded := m.exec (.load disp .ebp dest)
          have ebp : loaded.reg .ebp = m.reg .ebp := Machine.setReg_of_ne notEbp
          have later : Words loaded.mem (loaded.reg .ebp + (disp + 4)) args := by
            rw [ebp, ← UInt32.add_assoc]
            exact words.2
          obtain ⟨mem, kept, values⟩ := inductionHypothesis (disp + 4) distinctLater
            ⟨laterEbp, laterEsp⟩ later (by simpa using full)
          refine ⟨mem, fun r absent => ?_, ?_⟩
          · rw [List.mem_cons, not_or] at absent
            exact (kept r absent.2).trans (Machine.setReg_of_ne absent.1)
          · refine congrArg₂ List.cons ?_ values
            refine (kept dest fresh).trans ?_
            exact Machine.setReg_self.trans words.1

/-- What the wrappers have in common. -/
structure Wrapper.Regular (w : Wrapper) : Prop where
  saves : w.saves.Nodup ∧ .esp ∉ w.saves ∧ .ebp ∉ w.saves ∧ .eax ∉ w.saves
  parameters : w.parameters = [.ebx, .ecx, .edx].take w.parameters.length
  ebx : .ebx ∈ w.saves ∨ .ebx ∉ w.parameters
  few : w.saves.length ≤ 2

theorem wrappers_regular (member : (w, routine) ∈ wrappers) : w.Regular := by
  have all : ∀ pair ∈ wrappers,
      (pair.1.saves.Nodup ∧ .esp ∉ pair.1.saves ∧ .ebp ∉ pair.1.saves ∧ .eax ∉ pair.1.saves) ∧
      pair.1.parameters = [.ebx, .ecx, .edx].take pair.1.parameters.length ∧
      (.ebx ∈ pair.1.saves ∨ .ebx ∉ pair.1.parameters) ∧ pair.1.saves.length ≤ 2 := by
    decide
  obtain ⟨saves, parameters, ebx, few⟩ := all _ member
  exact ⟨saves, parameters, ebx, few⟩

/-- Each wrapper gives the number of its own routine. -/
theorem wrappers_number (member : (w, routine) ∈ wrappers) :
    sysCallTable[w.number.toNat]? = some routine ∧ w.number.toNat < 36 := by
  have all : ∀ pair ∈ wrappers,
      sysCallTable[pair.1.number.toNat]? = some pair.2 ∧ pair.1.number.toNat < 36 := by
    decide
  exact all _ member

namespace Wrapper

/-- What a wrapper leaves on its stack. -/
def frame (w : Wrapper) (m : Machine) : List UInt32 :=
  (w.saves.reverse ++ [Register.ebp]).map m.reg

theorem length_frame (w : Wrapper) (m : Machine) : (w.frame m).length = w.saves.length + 1 := by
  simp [frame]

theorem Regular.parameters_spec (regular : w.Regular) :
    w.parameters.Nodup ∧ .ebp ∉ w.parameters ∧ .esp ∉ w.parameters ∧ .eax ∉ w.parameters ∧
      ∀ r ∈ [Register.esi, .edi, .ebp, .ds, .es, .fs, .gs], r ∉ w.parameters := by
  have sublist : w.parameters.Sublist [.ebx, .ecx, .edx] := by
    rw [regular.parameters]
    exact List.take_sublist _ _
  have absent : ∀ r, r ∉ [Register.ebx, .ecx, .edx] → r ∉ w.parameters :=
    fun r outside inside => outside (sublist.subset inside)
  refine ⟨sublist.nodup (by decide), absent _ (by decide), absent _ (by decide),
    absent _ (by decide), fun r member => absent r ?_⟩
  revert r
  decide

/-- A wrapper up to `int`: its frame is on the stack and its arguments are in the
registers. -/
theorem before_spec (regular : w.Regular) (stack : Stack m (back :: args))
    (full : args.length = w.parameters.length) :
    Stack (m.run w.before) (w.frame m ++ back :: args) ∧
      Grown (w.saves.length + 1) m (m.run w.before) ∧
      (m.run w.before).reg .eax = w.number ∧
      w.parameters.map (m.run w.before).reg = args ∧
      ∀ r, r ∉ w.parameters → r ≠ .eax → r ≠ .ebp → r ≠ .esp →
        (m.run w.before).reg r = m.reg r := by
  obtain ⟨savesNodup, noEsp, noEbp, noEax⟩ := regular.saves
  obtain ⟨distinct, freshEbp, freshEsp, freshEax, _⟩ := regular.parameters_spec
  have few := regular.few
  have fewArgs : args.length ≤ 3 := by
    rw [full, regular.parameters]
    exact List.length_take_le' _ [Register.ebx, .ecx, .edx]
  let linked := (m.push (m.reg .ebp)).setReg .ebp ((m.push (m.reg .ebp)).reg .esp)
  have pushed : Stack linked (m.reg .ebp :: back :: args) :=
    (stack.push (by simp; omega)).setReg (by decide)
  have linkGrown : Grown 1 m linked := (Grown.push m _).trans (Grown.setReg (by decide))
  obtain ⟨saved, same, _⟩ := pushed.run_push w.saves (by simp; omega) noEsp
  have savesGrown := linkGrown.trans (Grown.run_push (m := linked) w.saves)
  have run : m.run w.before = ((linked.run (w.saves.map .push)).run
      (recoverParameters w.parameters 8)).setReg .eax w.number := by
    unfold before
    rw [Machine.run_append, Machine.run_append, Machine.run_append]
    rfl
  have values : w.saves.map linked.reg = w.saves.map m.reg :=
    List.map_congr_left fun r member =>
      (Machine.setReg_of_ne (ne_of_mem_of_not_mem member noEbp)).trans
        (Machine.push_reg (ne_of_mem_of_not_mem member noEsp))
  rw [values] at saved
  have ebp : (linked.run (w.saves.map .push)).reg .ebp = m.reg .esp - 4 := by
    rw [same .ebp (by decide)]
    exact Machine.setReg_self.trans Machine.push_esp
  have above : Words (linked.run (w.saves.map .push)).mem (m.reg .esp - 4 + 8) args := by
    have words : Words m.mem (m.reg .esp + UInt32.ofNat (4 * 1)) args := stack.2
    have kept := savesGrown.words 1 (by omega) words
    rw [show m.reg .esp - 4 + 8 = m.reg .esp + UInt32.ofNat (4 * 1) by
      rw [show (8 : UInt32) = 4 + UInt32.ofNat (4 * 1) from rfl, ← UInt32.add_assoc,
        UInt32.sub_add_cancel]]
    exact kept
  rw [← ebp] at above
  obtain ⟨mem, kept, loaded⟩ :=
    recoverParameters_spec w.parameters 8 distinct ⟨freshEbp, freshEsp⟩ above full
  rw [run]
  generalize linked.run (w.saves.map .push) = before at *
  generalize before.run (recoverParameters w.parameters 8) = after at *
  have esp : (after.setReg .eax w.number).reg .esp = before.reg .esp :=
    (Machine.setReg_of_ne (by decide)).trans (kept .esp freshEsp)
  refine ⟨?_, ?_, Machine.setReg_self, ?_, ?_⟩
  · unfold Stack frame
    rw [esp, Machine.setReg_mem, mem, List.map_append, List.map_reverse, List.append_assoc]
    exact saved
  · rw [Nat.add_comm]
    exact ⟨esp.trans savesGrown.pointer, fun address away =>
      (congrFun mem address).trans (savesGrown.beside address away)⟩
  · rw [← loaded]
    exact List.map_congr_left fun r member =>
      Machine.setReg_of_ne (ne_of_mem_of_not_mem member freshEax)
  · intro r absent notEax notEbp notEsp
    rw [Machine.setReg_of_ne notEax, kept r absent, same r notEsp]
    exact (Machine.setReg_of_ne notEbp).trans (Machine.push_reg notEsp)

/-! ## Behind the gate -/

/-- The frame is popped, up to the return address. -/
theorem recoverContext_spec {origin : Machine} (regular : w.Regular)
    (stack : Stack m (w.frame origin ++ [back])) :
    Stack (m.run w.recoverContext) [back] ∧ (m.run w.recoverContext).mem = m.mem ∧
      (m.run w.recoverContext).reg .esp = m.reg .esp + UInt32.ofNat (4 * (w.saves.length + 1)) ∧
      (∀ r, r ∈ w.saves ∨ r = .ebp → (m.run w.recoverContext).reg r = origin.reg r) ∧
      ∀ r, r ∉ w.saves → r ≠ .ebp → r ≠ .esp → (m.run w.recoverContext).reg r = m.reg r := by
  obtain ⟨savesNodup, noEsp, noEbp, noEax⟩ := regular.saves
  have distinct : (w.saves.reverse ++ [Register.ebp]).Nodup := by
    rw [List.nodup_append']
    refine ⟨List.nodup_reverse.mpr savesNodup, List.nodup_singleton _, ?_⟩
    simpa using noEbp
  have others : Register.esp ∉ w.saves.reverse ++ [.ebp] := by simpa using noEsp
  have count : (w.saves.reverse ++ [Register.ebp]).length = w.saves.length + 1 := by simp
  obtain ⟨popped, pairs, kept, up⟩ := stack.run_pop _ _ others distinct (by simp [frame])
  rw [count] at up
  refine ⟨popped, Stack.run_pop_mem _, up, ?_, ?_⟩
  · intro r member
    have inside : r ∈ w.saves.reverse ++ [Register.ebp] := by simpa using member
    refine pairs (r, origin.reg r) ?_
    unfold frame
    have zipped := List.zip_map' (f := id) (g := origin.reg)
      (l := w.saves.reverse ++ [Register.ebp])
    rw [List.map_id] at zipped
    rw [zipped]
    exact List.mem_map_of_mem inside
  · intro r absent notEbp notEsp
    exact kept r notEsp (by simpa using ⟨absent, notEbp⟩)

/-- The result is an error code. -/
def Fails (w : Wrapper) (result : UInt32) : Prop :=
  result.toInt32.toInt < 0 ∧ w.check ≠ .absent

instance (w : Wrapper) (result : UInt32) : Decidable (w.Fails result) := by
  unfold Fails
  infer_instance

theorem fails_iff {result : UInt32} (checked : w.check ≠ .absent) :
    w.Fails result ↔ result.toInt32.toInt < 0 :=
  and_iff_left checked

end Wrapper

theorem manageError_reg {r : Register} (other : r ≠ .eax) :
    (manageError errno m).reg r = m.reg r := by
  unfold manageError
  split_ifs
  · rfl
  · refine (Machine.setReg_of_ne other).trans ?_
    exact Machine.setReg_of_ne other

theorem manageError_eax : (manageError errno m).reg .eax =
    if (m.reg .eax).toInt32.toInt < 0 then -1 else m.reg .eax := by
  unfold manageError
  split_ifs with positive negative negative
  · omega
  · rfl
  · exact Machine.setReg_self
  · omega

theorem manageError_mem : (manageError errno m).mem =
    if (m.reg .eax).toInt32.toInt < 0 then Function.update m.mem errno (-m.reg .eax)
    else m.mem := by
  unfold manageError
  split_ifs with positive negative negative
  · omega
  · rfl
  · have product : m.reg .eax * -1 = -m.reg .eax := mul_neg_one _
    dsimp only
    rw [Machine.setReg_mem, Machine.setReg_self, product]
    rfl
  · omega

/-- The end of a wrapper, from the return of the kernel on. -/
theorem Wrapper.after_spec {origin : Machine} (regular : w.Regular)
    (stack : Stack m (w.frame origin ++ [back]))
    (outside : Outside errno (m.reg .esp) (w.saves.length + 2)) :
    Stack (w.after errno m) [back] ∧
      (w.after errno m).reg .esp = m.reg .esp + UInt32.ofNat (4 * (w.saves.length + 1)) ∧
      (w.after errno m).reg .eax = (if w.Fails (m.reg .eax) then -1 else m.reg .eax) ∧
      (w.after errno m).mem = (if w.Fails (m.reg .eax) then
        Function.update m.mem errno (-m.reg .eax) else m.mem) ∧
      (∀ r, r ∈ w.saves ∨ r = .ebp → (w.after errno m).reg r = origin.reg r) ∧
      ∀ r, r ∉ w.saves → r ≠ .ebp → r ≠ .esp → r ≠ .eax → (w.after errno m).reg r = m.reg r := by
  obtain ⟨_, _, noEbp, noEax⟩ := regular.saves
  have count : (w.frame origin ++ [back]).length = w.saves.length + 2 := by
    rw [List.length_append, w.length_frame]
    rfl
  obtain ⟨popped, mem, up, restored, kept⟩ := recoverContext_spec regular stack
  unfold Wrapper.after
  cases check : w.check with
  | absent =>
      have never : ¬ w.Fails (m.reg .eax) := fun fails => fails.2 check
      rw [if_neg never, if_neg never]
      exact ⟨popped, up, kept .eax noEax (by decide) (by decide), mem, restored,
        fun r absent notEbp notEsp _ => kept r absent notEbp notEsp⟩
  | afterPops =>
      have fails : w.Fails (m.reg .eax) ↔ _ := Wrapper.fails_iff (by rw [check]; decide)
      simp only [fails]
      have eax : (m.run w.recoverContext).reg .eax = m.reg .eax :=
        kept .eax noEax (by decide) (by decide)
      have last := outside (w.saves.length + 1) (by omega)
      rw [← up] at last
      refine ⟨?_, (manageError_reg (by decide)).trans up, ?_, ?_, ?_, ?_⟩
      · unfold Stack
        rw [manageError_reg (by decide), manageError_mem]
        refine ⟨?_, trivial⟩
        split_ifs
        · exact (Function.update_of_ne last _ _).trans popped.1
        · exact popped.1
      · rw [manageError_eax, eax]
      · rw [manageError_mem, eax, mem]
      · intro r member
        refine (manageError_reg ?_).trans (restored r member)
        rintro rfl
        exact member.elim noEax (by decide)
      · intro r absent notEbp notEsp notEax
        exact (manageError_reg notEax).trans (kept r absent notEbp notEsp)
  | beforePops =>
      have fails : w.Fails (m.reg .eax) ↔ _ := Wrapper.fails_iff (by rw [check]; decide)
      simp only [fails]
      have managed : Stack (manageError errno m) (w.frame origin ++ [back]) := by
        unfold Stack
        rw [manageError_reg (by decide), manageError_mem]
        split_ifs
        · exact Words.update stack (count ▸ outside)
        · exact stack
      obtain ⟨popped, mem, up, restored, kept⟩ := recoverContext_spec regular managed
      rw [manageError_reg (by decide)] at up
      refine ⟨popped, up, ?_, mem.trans manageError_mem, restored, ?_⟩
      · exact (kept .eax noEax (by decide) (by decide)).trans manageError_eax
      · intro r absent notEbp notEsp notEax
        exact (kept r absent notEbp notEsp).trans (manageError_reg notEax)

/-! ## The memory of the program -/

/-- On a stack that ends at `top`, the function does not write a set of words. -/
def Spares (top : UInt32) (addresses : UInt32 → Prop) (f : Machine → Machine) : Prop :=
  ∀ m n, m.reg .esp + UInt32.ofNat (4 * n) = top → n < 1024 →
    ∀ address, addresses address → (f m).mem address = m.mem address

/-- A stack that ends at `top` grows, and does not get out of its page. -/
theorem grown_spares {n k : Nat} (grown : Grown n m m')
    (depth : m.reg .esp + UInt32.ofNat (4 * k) = top) (few : k + n ≤ 1024)
    (away : ¬ Below top 1024 address) : m'.mem address = m.mem address := by
  apply grown.beside
  intro below
  have pointer : m.reg .esp = top - UInt32.ofNat (4 * k) := by
    rw [← depth, UInt32.add_sub_cancel]
  rw [pointer] at below
  exact away (below.deeper.mono few)

variable {addresses : UInt32 → Prop} {code : GateCode}

theorem savedCall_spares (back : UInt32) (spares : Spares top addresses f) {k : Nat}
    (depth : m.reg .esp + UInt32.ofNat (4 * k) = top) (few : k + 7 < 1024)
    (away : ¬ Below top 1024 address) (member : addresses address) :
    ((f ((m.run saveRegs).push back)).run restoreRegs).mem address = m.mem address := by
  have grown : Grown 7 m ((m.run saveRegs).push back) :=
    (Grown.run_push regsSaved).trans (Grown.push _ back)
  have deeper : ((m.run saveRegs).push back).reg .esp + UInt32.ofNat (4 * (k + 7)) = top := by
    rw [grown.pointer, Nat.mul_add, UInt32.ofNat_add, ← depth]
    abel
  have popped : ((f ((m.run saveRegs).push back)).run restoreRegs).mem =
      (f ((m.run saveRegs).push back)).mem := Stack.run_pop_mem regsSaved.reverse
  rw [popped, spares _ _ deeper few address member]
  exact grown_spares grown depth (by omega) away

variable {eip cs eflags esp ss : UInt32}

/-- What is assumed of the functions that a call of a routine runs: they follow the calling
convention, and keep a set of words that is not on the kernel's stack. -/
structure Follows (code : GateCode) (top : UInt32) (routine : ServiceRoutine)
    (addresses : UInt32 → Prop) : Prop where
  sysToUser : Conforms top code.sysToUserStats
  conforms : Conforms top (code.routine routine)
  spares : ∀ f ∈ [code.userToSysStats, code.routine routine, code.sysToUserStats],
    Spares top addresses f
  away : ∀ address, addresses address → ¬ Below top 1024 address

/-- The gate comes back with the result, and without having written the words that are
kept. -/
theorem systemCallHandler_returns (userToSys : Conforms top code.userToSysStats)
    (follows : Follows code top routine addresses)
    (trap : Stack m [eip, cs, eflags, esp, ss]) (start : m.reg .esp + 20 = top)
    (entering : enterGate code m = some (callEntry code m))
    (called : callee code (callEntry code m) = code.routine routine) :
    Stack (systemCallHandler code m) [eip, cs, eflags, esp, ss] ∧
      (systemCallHandler code m).reg .esp = m.reg .esp ∧
      (systemCallHandler code m).reg .eax = (code.routine routine (callEntry code m)).reg .eax ∧
      (∀ r ∈ allSaved, r ≠ .eax → (systemCallHandler code m).reg r = m.reg r) ∧
      ∀ address, addresses address → (systemCallHandler code m).mem address = m.mem address := by
  obtain ⟨stack, _, pointer⟩ := callEntry_stack userToSys trap start
  have handled : systemCallHandler code m =
      leaveGate code (code.routine routine (callEntry code m)) := by
    unfold systemCallHandler
    rw [entering]
    dsimp only
    rw [called]
  have depth : (callEntry code m).reg .esp + UInt32.ofNat (4 * 17) = top := by
    rw [pointer, ← start, show UInt32.ofNat (4 * 17) = 4 + 44 + 20 from rfl]
    abel
  have returned := follows.conforms.stack (callEntry code m) code.returnRoutine
    (saved m ++ [eip, cs, eflags, esp, ss]) depth stack (by simp [saved])
  have up := follows.conforms.esp (callEntry code m)
  rw [pointer, UInt32.sub_add_cancel] at up
  obtain ⟨frame, esp, result, registers⟩ :=
    leaveGate_restores follows.sysToUser returned up start
  rw [handled]
  refine ⟨frame, esp, result, registers, fun address member => ?_⟩
  have away := follows.away address member
  obtain ⟨_, _, savedPointer⟩ := saveAll_saves trap (by simp)
  have below : ∀ {a : Machine}, a.reg .esp = m.reg .esp - 44 →
      a.reg .esp + UInt32.ofNat (4 * 16) = top := by
    intro a at44
    rw [at44, ← start, show UInt32.ofNat (4 * 16) = 44 + 20 from rfl]
    abel
  -- up to the entry of the routine
  have saves : Grown 11 m (m.run saveAll) := (enter_spec .systemCall trap (by simp)).2
  have entry : (callEntry code m).mem address = m.mem address := by
    have counted := savedCall_spares code.returnUserToSys
      (follows.spares code.userToSysStats (by simp)) (below savedPointer) (by decide) away member
    have pointerBefore : ((code.userToSysStats (((m.run saveAll).run saveRegs).push
        code.returnUserToSys)).run restoreRegs).reg .esp = m.reg .esp - 44 :=
      (sub_left_inj (a := (4 : UInt32))).mp (Machine.push_esp.symm.trans pointer)
    have pushed := grown_spares (Grown.push _ code.returnRoutine) (below pointerBefore)
      (by decide) away
    exact pushed.trans (counted.trans (grown_spares saves (k := 5) start (by decide) away))
  -- the routine
  have served : (code.routine routine (callEntry code m)).mem address = m.mem address :=
    (follows.spares _ (by simp) _ _ depth (by decide) address member).trans entry
  -- and back
  have counted := savedCall_spares code.returnSysToUser
    (follows.spares code.sysToUserStats (by simp)) (below up) (by decide) away member
  have counting : ((code.sysToUserStats (((code.routine routine (callEntry code m)).run
      saveRegs).push code.returnSysToUser)).run restoreRegs).reg .esp = m.reg .esp - 44 :=
    (savedCall follows.sysToUser returned (below up) (by simp [saved])).2.1.trans up
  unfold leaveGate
  dsimp only
  rw [Machine.run_cons, restoreAll_eq, Stack.run_pop_mem]
  refine (Machine.write_of_ne ?_).trans (counted.trans served)
  intro same
  apply away
  refine ⟨9, by decide, ?_⟩
  rw [same, counting, ← start]
  change m.reg .esp - 44 + 24 = m.reg .esp + 20 - 40
  rw [show (44 : UInt32) = 24 + 20 from rfl, show (40 : UInt32) = 20 + 20 from rfl]
  abel

/-! ## The calls -/

variable {linked : Linked} {p inner : Processor} {entries : EntryPoints}
  {setHandlers : (UInt8 → Gate) → UInt8 → Gate} {idt : UInt8 → Gate}

/-- The words of a wrapper's frame, and its return address. -/
def Wrapper.Own (w : Wrapper) (m : Machine) (address : UInt32) : Prop :=
  ¬ Outside address (m.reg .esp - UInt32.ofNat (4 * (w.saves.length + 1))) (w.saves.length + 2)

/-- The processor behind the gate of the system calls. -/
theorem inKernel_spec (w : Wrapper) (installed : linked.idt = setIdt entries setHandlers idt)
    (program : level p.cs ≠ 0) :
    let gate := entries.entrance .systemCall
    let inner := (linked.atInt w p).deliver gate linked.esp0 kernelDs
    linked.inKernel w p = some inner ∧
      (linked.atInt w p).frame gate =
        [linked.resume, p.cs, p.eflags, (p.machine.run w.before).reg .esp, p.ss] ∧
      Stack inner.machine ((linked.atInt w p).frame gate) ∧
      inner.machine.reg .esp + 20 = linked.esp0 ∧
      (∀ r, r ≠ .esp → inner.machine.reg r = (p.machine.run w.before).reg r) ∧
      Grown 5 ((p.machine.run w.before).setReg .esp linked.esp0) inner.machine := by
  intro gate inner
  have decoded : (linked.idt 0x80).decode = some gate := by
    rw [installed]
    exact setIdt_entrance .systemCall
  have inward : level gate.selector < level (linked.atInt w p).cs := by
    rw [level_entrance]
    exact Nat.pos_of_ne_zero program
  have frame : (linked.atInt w p).frame gate =
      [linked.resume, p.cs, p.eflags, (p.machine.run w.before).reg .esp, p.ss] := if_pos inward
  have start : (linked.atInt w p).onStack gate linked.esp0 =
      (p.machine.run w.before).setReg .esp linked.esp0 := if_pos inward
  obtain ⟨stacked, grown, same⟩ := (linked.atInt w p).deliver_spec gate linked.esp0 kernelDs
  rw [start, frame] at grown
  refine ⟨?_, frame, stacked, ?_, same, grown⟩
  · unfold Linked.inKernel
    rw [decoded, Option.bind_some]
    exact if_pos (Nat.le_of_lt_succ (Nat.mod_lt _ (by decide)))
  · rw [grown.pointer, Machine.setReg_self]
    exact UInt32.sub_add_cancel _ _

/-- The call gets to the routine that has the wrapper's name, with interrupts masked and the
arguments of the function on its stack. -/
structure Reaches (linked : Linked) (w : Wrapper) (routine : ServiceRoutine)
    (args : List UInt32) (p inner : Processor) (entry : Machine) : Prop where
  gate : linked.inKernel w p = some inner
  ring : level inner.cs = 0
  masked : ¬ inner.Enabled
  entered : enterGate linked.code inner.machine = some entry
  callee : callee linked.code entry = linked.code.routine routine
  arguments : Words entry.mem (entry.reg .esp + 4) args

/-- The function returns to its caller as the C calling convention says, with the result of
the routine, or with -1 and the code of the error in `errno`. -/
structure Answers (linked : Linked) (w : Wrapper) (back result : UInt32)
    (p inner final : Processor) : Prop where
  eip : final.eip = back
  cs : final.cs = p.cs
  ss : final.ss = p.ss
  enabled : final.Enabled ↔ p.Enabled
  esp : final.machine.reg .esp = p.machine.reg .esp + 4
  kept : ∀ r ∈ [Register.ebx, .esi, .edi, .ebp, .ds, .es, .fs, .gs],
    final.machine.reg r = p.machine.reg r
  eax : final.machine.reg .eax = if w.Fails result then -1 else result
  memory : final.machine.mem =
    let kernel := (systemCallHandler linked.code inner.machine).mem
    if w.Fails result then Function.update kernel linked.errno (-result) else kernel

theorem reaches (installed : linked.idt = setIdt entries setHandlers idt)
    (userToSys : Conforms linked.esp0 linked.code.userToSysStats)
    (member : (w, routine) ∈ wrappers) (program : level p.cs ≠ 0)
    (stack : Stack p.machine (back :: args)) (full : args.length = w.parameters.length) :
    let inner := (linked.atInt w p).deliver (entries.entrance .systemCall) linked.esp0 kernelDs
    Reaches linked w routine args p inner (callEntry linked.code inner.machine) := by
  intro inner
  obtain ⟨inTable, small⟩ := wrappers_number member
  have regular := wrappers_regular member
  obtain ⟨_, _, eax, loaded, _⟩ := Wrapper.before_spec regular stack full
  obtain ⟨isInner, frame, trap, start, same, _⟩ := inKernel_spec w installed program
  rw [frame] at trap
  have number : inner.machine.reg .eax = w.number := (same .eax (by decide)).trans eax
  obtain ⟨stacked, kept, _⟩ := callEntry_stack userToSys trap start
  have masks : (entries.entrance .systemCall).masks = true := rfl
  refine ⟨isInner, level_entrance entries .systemCall, Processor.not_enabled_deliver masks, ?_, ?_,
    ?_⟩
  · have signed : (inner.machine.reg .eax).toInt32.toInt = w.number.toNat := by
      rw [number]
      rcases signed_cases w.number with ⟨_, same⟩ | ⟨large, _⟩
      · exact same
      · omega
    have largest : maxSyscall = 36 := rfl
    rw [enterGate_eq trap (by simp), signed, if_pos (by omega)]
  · unfold callee
    rw [kept, number, inTable]
  · have values : [inner.machine.reg .ebx, inner.machine.reg .ecx, inner.machine.reg .edx] =
        [Register.ebx, .ecx, .edx].map (p.machine.run w.before).reg := by
      simp [inner, same]
    have three : Words (callEntry linked.code inner.machine).mem
        ((callEntry linked.code inner.machine).reg .esp + 4)
        [inner.machine.reg .ebx, inner.machine.reg .ecx, inner.machine.reg .edx] :=
      ⟨stacked.2.1, stacked.2.2.1, stacked.2.2.2.1, trivial⟩
    have front := three.take w.parameters.length
    rw [values, ← List.map_take, ← regular.parameters, loaded] at front
    exact front

/-- Every function of the library reaches its own service routine with its own arguments. -/
theorem wrappers_reach (installed : linked.idt = setIdt entries setHandlers idt)
    (userToSys : Conforms linked.esp0 linked.code.userToSysStats)
    (member : (w, routine) ∈ wrappers) (program : level p.cs ≠ 0)
    (stack : Stack p.machine (back :: args)) (full : args.length = w.parameters.length) :
    ∃ inner entry, Reaches linked w routine args p inner entry :=
  ⟨_, _, reaches installed userToSys member program stack full⟩

/-- What the wrapper finds after `int $0x80`. -/
structure Resumed (linked : Linked) (w : Wrapper) (p : Processor) (result : UInt32)
    (addresses : UInt32 → Prop) (final : Processor) : Prop where
  cs : final.cs = p.cs
  ss : final.ss = p.ss
  eflags : final.eflags = p.eflags
  esp : final.machine.reg .esp = (p.machine.run w.before).reg .esp
  eax : final.machine.reg .eax = result
  registers : ∀ r ∈ allSaved, r ≠ .eax →
    final.machine.reg r = (p.machine.run w.before).reg r
  spared : ∀ address, addresses address →
    final.machine.mem address = (p.machine.run w.before).mem address

theorem fromKernel_spec (installed : linked.idt = setIdt entries setHandlers idt)
    (userToSys : Conforms linked.esp0 linked.code.userToSysStats)
    (follows : Follows linked.code linked.esp0 routine addresses) (program : level p.cs ≠ 0) :
    let inner := (linked.atInt w p).deliver (entries.entrance .systemCall) linked.esp0 kernelDs
    enterGate linked.code inner.machine = some (callEntry linked.code inner.machine) →
    callee linked.code (callEntry linked.code inner.machine) = linked.code.routine routine →
    Resumed linked w p ((linked.code.routine routine (callEntry linked.code inner.machine)).reg
      .eax) addresses (linked.fromKernel inner) := by
  intro inner entering called
  obtain ⟨_, frame, trap, start, same, grown⟩ := inKernel_spec w installed program
  have trapFrame := trap
  rw [frame] at trapFrame
  obtain ⟨handled, pointer, eax, registers, spared⟩ :=
    systemCallHandler_returns userToSys follows trapFrame start entering called
  rw [← frame] at handled
  obtain ⟨_, cs, eflags, ss, esp, after, _⟩ := Processor.iret_frame
    (q := { inner with machine := systemCallHandler linked.code inner.machine }) handled rfl
    (fun stays => absurd (Nat.eq_zero_of_not_pos (level_entrance entries .systemCall ▸ stays))
      program)
  have notPointer : ∀ r ∈ allSaved, r ≠ .esp := by decide
  refine ⟨cs, ss, eflags, esp, (after .eax (by decide)).trans eax, ?_, ?_⟩
  · intro r member notEax
    refine (after r (notPointer r member)).trans ?_
    exact (registers r member notEax).trans (same r (notPointer r member))
  · intro address member
    have top : ((p.machine.run w.before).setReg .esp linked.esp0).reg .esp +
        UInt32.ofNat (4 * 0) = linked.esp0 := by
      rw [Machine.setReg_self]
      exact UInt32.add_zero _
    have framed := grown_spares grown top (by decide) (follows.away address member)
    exact (spared address member).trans framed

/-- Every function of the library returns to its caller, and in between its routine was
called. -/
theorem wrappers_answer (installed : linked.idt = setIdt entries setHandlers idt)
    (userToSys : Conforms linked.esp0 linked.code.userToSysStats)
    (follows : Follows linked.code linked.esp0 routine (w.Own p.machine))
    (member : (w, routine) ∈ wrappers) (program : level p.cs ≠ 0)
    (stack : Stack p.machine (back :: args)) (full : args.length = w.parameters.length)
    (apart : ¬ w.Own p.machine linked.errno) :
    ∃ inner entry final, Reaches linked w routine args p inner entry ∧
      linked.call w p = some final ∧
      Answers linked w back ((linked.code.routine routine entry).reg .eax) p inner final := by
  have reached := reaches installed userToSys member program stack full
  have regular := wrappers_regular member
  obtain ⟨framed, before, _, _, others⟩ := Wrapper.before_spec regular stack full
  have resumed := fromKernel_spec installed userToSys follows program reached.entered reached.callee
  generalize (linked.atInt w p).deliver (entries.entrance .systemCall) linked.esp0 kernelDs = inner
    at *
  dsimp only at reached
  refine ⟨inner, _, _, reached, congrArg (Option.map _) reached.gate, ?_⟩
  have count : (w.frame p.machine ++ [back]).length = w.saves.length + 2 := by
    rw [List.length_append, w.length_frame]
    rfl
  have bottom := resumed.esp.trans before.pointer
  have ownFrame : Stack (linked.fromKernel inner).machine (w.frame p.machine ++ [back]) := by
    have front : Words (p.machine.run w.before).mem ((p.machine.run w.before).reg .esp)
        (w.frame p.machine ++ [back]) := by
      have whole := framed
      rw [show w.frame p.machine ++ back :: args = (w.frame p.machine ++ [back]) ++ args by simp]
        at whole
      exact (Words.append.mp whole).1
    unfold Stack
    rw [resumed.esp]
    refine front.congr fun k few => resumed.spared _ fun outside => ?_
    rw [before.pointer] at outside
    exact outside k (count ▸ few) rfl
  have outside : Outside linked.errno ((linked.fromKernel inner).machine.reg .esp)
      (w.saves.length + 2) := by
    rw [bottom]
    exact not_not.mp apart
  obtain ⟨popped, up, eax, memory, restored, kept⟩ :=
    Wrapper.after_spec regular ownFrame outside
  have result := resumed.eax
  refine ⟨popped.1, resumed.cs, resumed.ss, ?_, ?_, ?_, ?_, ?_⟩
  · exact iff_of_eq (congrArg (· &&& interruptFlag ≠ 0) resumed.eflags)
  · refine Machine.drop_esp.trans ?_
    rw [up, bottom, UInt32.sub_add_cancel]
  · intro r member
    have named : r ≠ .esp ∧ r ≠ .eax ∧ r ∈ allSaved := by
      revert r
      decide
    obtain ⟨notEsp, notEax, isSaved⟩ := named
    refine (Machine.drop_reg notEsp).trans ?_
    by_cases isRestored : r ∈ w.saves ∨ r = .ebp
    · exact restored r isRestored
    · rw [not_or] at isRestored
      obtain ⟨notSaved, notEbp⟩ := isRestored
      refine (kept r notSaved notEbp notEsp notEax).trans ?_
      refine (resumed.registers r isSaved notEax).trans ?_
      refine others r ?_ notEax notEbp notEsp
      rcases List.mem_cons.mp member with rfl | later
      · exact regular.ebx.resolve_left notSaved
      · exact regular.parameters_spec.2.2.2.2 r later
  · refine (Machine.drop_reg (by decide)).trans ?_
    rw [eax, result]
  · dsimp only
    rw [← result]
    exact memory

/-! ## `sem_wait` on a semaphore that is not in use -/

/-- Every routine returns `-EINVAL`. -/
def refusingCode : GateCode := { plainCode with routine := fun _ => returning (-22) }

def sampleLinked : Linked where
  idt := setIdt sampleEntries id emptyIdt
  esp0 := 0x12000
  code := refusingCode
  errno := 0x108000
  resume := 0x100200

/-- `sem_wait(3)` is called from `0x100123`. -/
def sampleCaller : Processor where
  machine :=
    { reg := fun r => if r = .esp then 0x11BFF0 else 7
      mem := fun address =>
        if address = 0x11BFF0 then 0x100123 else if address = 0x11BFF4 then 3 else 0 }
  eip := 0x100300
  cs := 0x23
  ss := 0x2B
  eflags := 0x202

theorem sampleCaller_stack : Stack sampleCaller.machine [0x100123, 3] := ⟨rfl, rfl, trivial⟩

theorem sampleCaller_own {address : UInt32} (own : Wrapper.semWait.Own sampleCaller.machine address) :
    0x11BFE8 ≤ address.toNat ∧ address.toNat ≤ 0x11BFF0 := by
  unfold Wrapper.Own Outside at own
  push Not at own
  obtain ⟨k, few, rfl⟩ := own
  have all : ∀ k < 3, 0x11BFE8 ≤ ((0x11BFE8 : UInt32) + UInt32.ofNat (4 * k)).toNat ∧
      ((0x11BFE8 : UInt32) + UInt32.ofNat (4 * k)).toNat ≤ 0x11BFF0 := by decide
  exact all k few

theorem sampleLinked_below {address : UInt32} (below : Below sampleLinked.esp0 1024 address) :
    address.toNat < 0x12000 := by
  have inPage : Below (slot 0x11000 4096) 1024 address := below
  have aligned : PageAligned 0x11000 := by
    unfold PageAligned
    decide
  obtain ⟨k, _, inside, rfl⟩ := below_slot (by decide) inPage
  rw [slot_toNat aligned inside]
  change 0x11000 + k < 0x12000
  omega

theorem returning_spares (value : UInt32) (addresses : UInt32 → Prop) :
    Spares top addresses (returning value) := fun _ _ _ _ _ _ => rfl

theorem wrappers_reach_semWait : ∃ inner entry,
    Reaches sampleLinked .semWait .sysSemWait [3] sampleCaller inner entry :=
  wrappers_reach rfl (returning_conforms 0) (by decide)
    (by decide) sampleCaller_stack rfl

theorem wrappers_answer_semWait : ∃ inner final,
    sampleLinked.call .semWait sampleCaller = some final ∧
      Answers sampleLinked .semWait 0x100123 (-22) sampleCaller inner final := by
  have follows : Follows sampleLinked.code sampleLinked.esp0 .sysSemWait
      (Wrapper.semWait.Own sampleCaller.machine) :=
    { sysToUser := returning_conforms 0
      conforms := returning_conforms (-22)
      spares := by
        simp only [List.forall_mem_cons]
        exact ⟨returning_spares _ _, returning_spares _ _, returning_spares _ _, by simp⟩
      away := by
        intro address own below
        have high := sampleLinked_below below
        have low := (sampleCaller_own own).1
        omega }
  have apart : ¬ Wrapper.semWait.Own sampleCaller.machine sampleLinked.errno := by
    intro own
    exact absurd (sampleCaller_own own).1 (by decide)
  obtain ⟨inner, entry, final, _, called, answers⟩ :=
    wrappers_answer rfl (returning_conforms 0) follows
      (by decide) (by decide) sampleCaller_stack rfl apart
  exact ⟨inner, final, called, answers⟩

end Zeos.Switch
