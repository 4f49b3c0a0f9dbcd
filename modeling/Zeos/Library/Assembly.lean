import Mathlib

/-!
# A machine with registers and a stack of words

A subset of the 32-bit x86 instructions, over a memory of words whose addresses are
multiples of four.  `Words` says what lies from an address on, and `Stack` what lies
from `%esp` on; instructions are followed by what they do to the stack.
-/

namespace Zeos.Library

inductive Register where
  | eax
  | ebx
  | ecx
  | edx
  | esi
  | edi
  | ebp
  | esp
  | ds
  | es
  | fs
  | gs
  | cr3
  deriving DecidableEq

structure Machine where
  reg : Register → UInt32
  mem : UInt32 → UInt32

inductive Instr where
  | push (source : Register)
  | pushMem (disp : UInt32) (base : Register)
  | pop (dest : Register)
  | mov (source dest : Register)
  | movImm (value : UInt32) (dest : Register)
  | load (disp : UInt32) (base dest : Register)
  | store (source : Register) (disp : UInt32) (base : Register)
  | addImm (value : UInt32) (dest : Register)
  | andImm (value : UInt32) (dest : Register)

namespace Machine

def setReg (m : Machine) (dest : Register) (value : UInt32) : Machine :=
  { m with reg := Function.update m.reg dest value }

def write (m : Machine) (address value : UInt32) : Machine :=
  { m with mem := Function.update m.mem address value }

def push (m : Machine) (value : UInt32) : Machine :=
  (m.setReg .esp (m.reg .esp - 4)).write (m.reg .esp - 4) value

/-- The word on top of the stack is taken off. -/
def drop (m : Machine) : Machine := m.setReg .esp (m.reg .esp + 4)

def exec (m : Machine) : Instr → Machine
  | .push source => m.push (m.reg source)
  | .pushMem disp base => m.push (m.mem (m.reg base + disp))
  | .pop dest => m.drop.setReg dest (m.mem (m.reg .esp))
  | .mov source dest => m.setReg dest (m.reg source)
  | .movImm value dest => m.setReg dest value
  | .load disp base dest => m.setReg dest (m.mem (m.reg base + disp))
  | .store source disp base => m.write (m.reg base + disp) (m.reg source)
  | .addImm value dest => m.setReg dest (m.reg dest + value)
  | .andImm value dest => m.setReg dest (m.reg dest &&& value)

/-- Straight-line code. -/
def run (m : Machine) (code : List Instr) : Machine := code.foldl exec m

variable {m : Machine} {address value : UInt32} {r dest : Register}

@[simp]
theorem setReg_self : (m.setReg dest value).reg dest = value :=
  Function.update_self _ _ _

@[simp]
theorem setReg_of_ne (other : r ≠ dest) : (m.setReg dest value).reg r = m.reg r :=
  Function.update_of_ne other _ _

@[simp]
theorem setReg_setReg {later : UInt32} :
    (m.setReg dest value).setReg dest later = m.setReg dest later :=
  congrArg (fun reg => ({ m with reg := reg } : Machine)) (Function.update_idem _ _ _)

@[simp]
theorem setReg_mem : (m.setReg dest value).mem = m.mem := rfl

@[simp]
theorem write_reg : (m.write address value).reg = m.reg := rfl

@[simp]
theorem write_self : (m.write address value).mem address = value :=
  Function.update_self _ _ _

theorem write_of_ne {other : UInt32} (different : other ≠ address) :
    (m.write address value).mem other = m.mem other :=
  Function.update_of_ne different _ _

@[simp]
theorem push_esp : (m.push value).reg .esp = m.reg .esp - 4 := by
  unfold push
  rw [write_reg, setReg_self]

@[simp]
theorem push_reg (other : r ≠ .esp) : (m.push value).reg r = m.reg r :=
  setReg_of_ne other

@[simp]
theorem push_top : (m.push value).mem (m.reg .esp - 4) = value := write_self

theorem push_mem {other : UInt32} (different : other ≠ m.reg .esp - 4) :
    (m.push value).mem other = m.mem other :=
  write_of_ne different

@[simp]
theorem drop_esp : m.drop.reg .esp = m.reg .esp + 4 := setReg_self

@[simp]
theorem drop_reg (other : r ≠ .esp) : m.drop.reg r = m.reg r := setReg_of_ne other

@[simp]
theorem drop_mem : m.drop.mem = m.mem := rfl

@[simp]
theorem run_nil : m.run [] = m := rfl

@[simp]
theorem run_cons (instr : Instr) (code : List Instr) :
    m.run (instr :: code) = (m.exec instr).run code := rfl

theorem run_append (code later : List Instr) :
    m.run (code ++ later) = (m.run code).run later :=
  List.foldl_append

end Machine

/-! ## Words in memory -/

/-- The words `ws` lie from `address` on. -/
def Words (mem : UInt32 → UInt32) : UInt32 → List UInt32 → Prop
  | _, [] => True
  | address, w :: ws => mem address = w ∧ Words mem (address + 4) ws

/-- The `n` words from `start` on do not contain `address`. -/
def Outside (address start : UInt32) (n : Nat) : Prop :=
  ∀ k < n, start + UInt32.ofNat (4 * k) ≠ address

variable {mem mem' : UInt32 → UInt32} {address start value w : UInt32} {ws front back : List UInt32}
  {n : Nat}

theorem start_ofNat_zero : start + UInt32.ofNat (4 * 0) = start := UInt32.add_zero _

theorem start_ofNat_succ (k : Nat) :
    start + 4 + UInt32.ofNat (4 * k) = start + UInt32.ofNat (4 * (k + 1)) := by
  rw [UInt32.add_assoc, Nat.mul_succ, UInt32.ofNat_add, UInt32.add_comm (UInt32.ofNat (4 * k))]
  rfl

/-- The word below a block of less than `2 ^ 30` words is no part of it. -/
theorem outside_below (few : n + 1 < 2 ^ 30) : Outside (start - 4) start n := by
  intro k small same
  have sum : UInt32.ofNat (4 * k) + 4 = 0 := by
    have moved : start + UInt32.ofNat (4 * k) + 4 = start := by
      rw [same, UInt32.sub_add_cancel]
    have zero : start + (UInt32.ofNat (4 * k) + 4) = start + 0 := by
      rw [← UInt32.add_assoc, moved, UInt32.add_zero]
    exact (UInt32.add_right_inj start).mp zero
  have value := congrArg UInt32.toNat sum
  rw [UInt32.toNat_add, UInt32.toNat_ofNat'] at value
  simp at value
  omega

namespace Words

theorem congr (words : Words mem start ws)
    (same : ∀ k < ws.length, mem' (start + UInt32.ofNat (4 * k)) =
      mem (start + UInt32.ofNat (4 * k))) : Words mem' start ws := by
  induction ws generalizing start with
  | nil => trivial
  | cons w ws inductionHypothesis =>
      have first := same 0 (Nat.succ_pos _)
      rw [start_ofNat_zero] at first
      refine ⟨first.trans words.1, inductionHypothesis words.2 fun k few => ?_⟩
      rw [start_ofNat_succ]
      exact same (k + 1) (Nat.succ_lt_succ few)

/-- A word outside is written. -/
theorem update (words : Words mem start ws) (outside : Outside address start ws.length) :
    Words (Function.update mem address value) start ws :=
  words.congr fun k few => Function.update_of_ne (outside k few) _ _

/-- A word inside is written. -/
theorem set (words : Words mem start ws) (few : ws.length < 2 ^ 30) (k : Nat)
    (inside : k < ws.length) :
    Words (Function.update mem (start + UInt32.ofNat (4 * k)) value) start (ws.set k value) := by
  induction ws generalizing start k with
  | nil => exact absurd inside (Nat.not_lt_zero k)
  | cons w ws inductionHypothesis =>
      rw [List.length_cons] at few inside
      cases k with
      | zero =>
          rw [start_ofNat_zero]
          refine ⟨Function.update_self _ _ _, ?_⟩
          have outside : Outside start (start + 4) ws.length := by
            have below : Outside (start + 4 - 4) (start + 4) ws.length := outside_below few
            rw [UInt32.add_sub_cancel] at below
            exact below
          exact words.2.update outside
      | succ k =>
          have later := inductionHypothesis words.2 (by omega) k (by omega)
          rw [start_ofNat_succ] at later
          refine ⟨?_, later⟩
          have below : Outside (start + 4 - 4) (start + 4) ws.length := outside_below few
          have outside := below k (by omega)
          rw [UInt32.add_sub_cancel, start_ofNat_succ] at outside
          exact (Function.update_of_ne (Ne.symm outside) _ _).trans words.1

/-- A word of the block. -/
theorem get (words : Words mem start ws) {k : Nat} (found : ws[k]? = some w) :
    mem (start + UInt32.ofNat (4 * k)) = w := by
  induction ws generalizing start k with
  | nil => cases found
  | cons v ws inductionHypothesis =>
      cases k with
      | zero =>
          rw [start_ofNat_zero, words.1]
          exact Option.some.inj found
      | succ k =>
          rw [← start_ofNat_succ]
          exact inductionHypothesis words.2 found

theorem append : Words mem start (front ++ back) ↔
    Words mem start front ∧ Words mem (start + UInt32.ofNat (4 * front.length)) back := by
  induction front generalizing start with
  | nil =>
      rw [List.nil_append, List.length_nil, start_ofNat_zero]
      exact (Iff.of_eq (true_and _)).symm
  | cons w front inductionHypothesis =>
      rw [List.cons_append, List.length_cons, ← start_ofNat_succ]
      exact (and_congr_right fun _ => inductionHypothesis).trans and_assoc.symm

/-- The first words of the block. -/
theorem take (words : Words mem start ws) (n : Nat) : Words mem start (ws.take n) := by
  rw [← List.take_append_drop n ws] at words
  exact (append.mp words).1

end Words

/-! ## The stack -/

/-- The words from `%esp` on. -/
def Stack (m : Machine) (ws : List UInt32) : Prop := Words m.mem (m.reg .esp) ws

namespace Stack

variable {m : Machine} {r dest : Register}

theorem push (stack : Stack m ws) (few : ws.length + 1 < 2 ^ 30) :
    Stack (m.push value) (value :: ws) := by
  have rest : Words (m.push value).mem (m.reg .esp) ws :=
    Words.update stack (outside_below few)
  unfold Stack
  rw [Machine.push_esp]
  refine ⟨Machine.push_top, ?_⟩
  rw [UInt32.sub_add_cancel]
  exact rest

theorem drop (stack : Stack m (w :: ws)) : Stack m.drop ws := by
  unfold Stack
  rw [Machine.drop_esp]
  exact stack.2

theorem top (stack : Stack m (w :: ws)) : m.mem (m.reg .esp) = w := stack.1

/-- A register other than `%esp` is written. -/
theorem setReg (stack : Stack m ws) (other : dest ≠ .esp) : Stack (m.setReg dest value) ws := by
  unfold Stack
  rw [Machine.setReg_of_ne (Ne.symm other)]
  exact stack

theorem exec_pop (stack : Stack m (w :: ws)) (other : dest ≠ .esp) :
    Stack (m.exec (.pop dest)) ws ∧ (m.exec (.pop dest)).reg dest = w := by
  refine ⟨stack.drop.setReg other, ?_⟩
  exact Machine.setReg_self.trans stack.top

/-- Registers are saved, the last one on top. -/
theorem run_push (regs : List Register) (few : regs.length + ws.length + 1 < 2 ^ 30) (others : .esp ∉ regs)
    (stack : Stack m ws) :
    Stack (m.run (regs.map .push)) ((regs.map m.reg).reverse ++ ws) ∧
      (∀ r, r ≠ .esp → (m.run (regs.map .push)).reg r = m.reg r) ∧
      (m.run (regs.map .push)).reg .esp = m.reg .esp - UInt32.ofNat (4 * regs.length) := by
  induction regs generalizing m ws with
  | nil => exact ⟨stack, fun _ _ => rfl, (UInt32.sub_zero _).symm⟩
  | cons r regs inductionHypothesis =>
      rw [List.mem_cons, not_or] at others
      obtain ⟨notFirst, notLater⟩ := others
      rw [List.length_cons] at few
      have pushed : Stack (m.push (m.reg r)) (m.reg r :: ws) := stack.push (by omega)
      obtain ⟨after, same, pointer⟩ := inductionHypothesis
        (by rw [List.length_cons]; omega) notLater pushed
      have kept : regs.map (m.push (m.reg r)).reg = regs.map m.reg :=
        List.map_congr_left fun q member =>
          Machine.push_reg fun isPointer => notLater (isPointer ▸ member)
      refine ⟨?_, fun q other => (same q other).trans (Machine.push_reg other), ?_⟩
      · rw [kept] at after
        rw [List.map_cons, List.map_cons, List.reverse_cons, List.append_assoc]
        exact after
      · change _ = m.reg .esp - UInt32.ofNat (4 * (regs.length + 1))
        rw [Nat.mul_succ, UInt32.ofNat_add, add_comm, ← sub_sub]
        refine pointer.trans ?_
        rw [Machine.push_esp]
        rfl

/-- Registers get the words from the top of the stack. -/
theorem run_pop (regs : List Register) (values : List UInt32) (others : .esp ∉ regs)
    (distinct : regs.Nodup) (same : values.length = regs.length) (stack : Stack m (values ++ ws)) :
    Stack (m.run (regs.map .pop)) ws ∧
      (∀ pair ∈ regs.zip values, (m.run (regs.map .pop)).reg pair.1 = pair.2) ∧
      (∀ r, r ≠ .esp → r ∉ regs → (m.run (regs.map .pop)).reg r = m.reg r) ∧
      (m.run (regs.map .pop)).reg .esp = m.reg .esp + UInt32.ofNat (4 * regs.length) := by
  induction regs generalizing m values with
  | nil =>
      rw [List.length_nil, List.length_eq_zero_iff] at same
      subst same
      exact ⟨stack, by simp, fun _ _ _ => rfl, (UInt32.add_zero _).symm⟩
  | cons r regs inductionHypothesis =>
      rw [List.mem_cons, not_or] at others
      obtain ⟨notFirst, notLater⟩ := others
      obtain ⟨fresh, distinctLater⟩ := List.nodup_cons.mp distinct
      cases values with
      | nil => simp at same
      | cons v values =>
          obtain ⟨popped, value⟩ := stack.exec_pop (Ne.symm notFirst)
          obtain ⟨after, pairs, kept, pointer⟩ := inductionHypothesis values notLater distinctLater
            (by simpa using same) popped
          refine ⟨after, ?_, ?_, ?_⟩
          · intro pair member
            rw [List.zip_cons_cons, List.mem_cons] at member
            rcases member with rfl | member
            · exact (kept r (Ne.symm notFirst) fresh).trans value
            · exact pairs pair member
          · intro q other absent
            rw [List.mem_cons, not_or] at absent
            refine (kept q other absent.2).trans ?_
            exact (Machine.setReg_of_ne absent.1).trans (Machine.drop_reg other)
          · have moved : (m.exec (.pop r)).reg .esp = m.reg .esp + 4 :=
              (Machine.setReg_of_ne notFirst).trans Machine.drop_esp
            change _ = m.reg .esp + UInt32.ofNat (4 * (regs.length + 1))
            rw [← start_ofNat_succ, ← moved]
            exact pointer

theorem run_pop_mem (regs : List Register) : (m.run (regs.map .pop)).mem = m.mem := by
  induction regs generalizing m with
  | nil => rfl
  | cons r regs inductionHypothesis => exact inductionHypothesis

end Stack

/-! ## What a growing stack leaves alone -/

/-- One of the `n` words below the stack pointer. -/
def Below (pointer : UInt32) (n : Nat) (address : UInt32) : Prop :=
  ∃ j < n, address = pointer - UInt32.ofNat (4 * (j + 1))

/-- The stack has grown by `n` words, and nothing else is written. -/
structure Grown (n : Nat) (m m' : Machine) : Prop where
  pointer : m'.reg .esp = m.reg .esp - UInt32.ofNat (4 * n)
  beside : ∀ address, ¬ Below (m.reg .esp) n address → m'.mem address = m.mem address

theorem sub_ofNat_sub (pointer : UInt32) (n k : Nat) :
    pointer - UInt32.ofNat (4 * n) - UInt32.ofNat (4 * k) =
      pointer - UInt32.ofNat (4 * (n + k)) := by
  rw [Nat.mul_add, UInt32.ofNat_add, sub_sub]

theorem Below.mono {pointer : UInt32} {k : Nat} (few : n ≤ k) (below : Below pointer n address) :
    Below pointer k address := by
  obtain ⟨j, small, same⟩ := below
  exact ⟨j, by omega, same⟩

theorem Below.deeper {pointer : UInt32} {k : Nat}
    (below : Below (pointer - UInt32.ofNat (4 * n)) k address) : Below pointer (n + k) address := by
  obtain ⟨j, small, same⟩ := below
  rw [sub_ofNat_sub] at same
  exact ⟨n + j, by omega, same⟩

namespace Grown

variable {m m' m'' : Machine} {k : Nat} {dest : Register}

theorem trans (first : Grown n m m') (second : Grown k m' m'') : Grown (n + k) m m'' where
  pointer := by rw [second.pointer, first.pointer, sub_ofNat_sub]
  beside address away := by
    have later : ¬ Below (m'.reg .esp) k address := by
      intro below
      rw [first.pointer] at below
      exact away below.deeper
    have earlier : ¬ Below (m.reg .esp) n address := fun below =>
      away (below.mono (Nat.le_add_right n k))
    exact (second.beside address later).trans (first.beside address earlier)

theorem push (m : Machine) (value : UInt32) : Grown 1 m (m.push value) where
  pointer := Machine.push_esp
  beside _ away := Machine.push_mem fun same => away ⟨0, Nat.one_pos, same⟩

theorem setReg (other : dest ≠ .esp) : Grown 0 m (m.setReg dest value) where
  pointer := by
    rw [Machine.setReg_of_ne (Ne.symm other)]
    exact (UInt32.sub_zero _).symm
  beside _ _ := rfl

/-- Words are reserved without being written. -/
theorem reserve (m : Machine) (n : Nat) :
    Grown n m (m.setReg .esp (m.reg .esp - UInt32.ofNat (4 * n))) where
  pointer := Machine.setReg_self
  beside _ _ := rfl

theorem run_push (regs : List Register) : Grown regs.length m (m.run (regs.map .push)) := by
  induction regs generalizing m with
  | nil => exact ⟨(UInt32.sub_zero _).symm, fun _ _ => rfl⟩
  | cons r regs inductionHypothesis =>
      have both := (push m (m.reg r)).trans inductionHypothesis
      rw [Nat.add_comm] at both
      exact both

/-- What lies above the stack pointer is kept. -/
theorem words (grown : Grown n m m') (k : Nat) (few : k + n + ws.length < 2 ^ 30)
    (before : Words m.mem (m.reg .esp + UInt32.ofNat (4 * k)) ws) :
    Words m'.mem (m.reg .esp + UInt32.ofNat (4 * k)) ws := by
  refine before.congr fun i inside => grown.beside _ ?_
  rintro ⟨j, small, same⟩
  have sum : UInt32.ofNat (4 * (k + i + j + 1)) = 0 := by
    have moved : m.reg .esp + (UInt32.ofNat (4 * k) + UInt32.ofNat (4 * i) +
        UInt32.ofNat (4 * (j + 1))) = m.reg .esp + 0 := by
      rw [← UInt32.add_assoc, ← UInt32.add_assoc, same, UInt32.sub_add_cancel, UInt32.add_zero]
    rw [← UInt32.ofNat_add, ← UInt32.ofNat_add] at moved
    rw [show 4 * (k + i + j + 1) = 4 * k + 4 * i + 4 * (j + 1) by omega]
    exact (UInt32.add_right_inj _).mp moved
  have value := congrArg UInt32.toNat sum
  rw [UInt32.toNat_ofNat'] at value
  simp at value
  omega

end Grown

end Zeos.Library
