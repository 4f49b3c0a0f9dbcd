import Zeos.Library.Interrupts
import Zeos.Switch.Gate

/-!
# The interrupt descriptor table

`setInterruptHandler`, `setTrapHandler` and `setIdt` of `interrupt.c`, and the part of
`setGdt` of `mm.c` that writes the base of the TSS, with the macros of `types.h`.  What
the processor reads from the entries is what they were given.
-/

namespace Zeos.Switch

open Zeos.Library

/-! ## `types.h` -/

def highWord (address : UInt32) : UInt16 := (address >>> 16 &&& 0xFFFF).toUInt16

def lowWord (address : UInt32) : UInt16 := (address &&& 0xFFFF).toUInt16

def midByte (address : UInt32) : UInt8 := (address >>> 16 &&& 0xFF).toUInt8

def highByte (address : UInt32) : UInt8 := (address >>> (16 + 8) &&& 0xFF).toUInt8

/-- `Descriptor`, a segment descriptor. -/
structure Descriptor where
  limit : UInt16
  lowBase : UInt16
  midBase : UInt8
  flags1 : UInt8
  flags2 : UInt8
  highBase : UInt8

/-- The base that the processor reads from a segment descriptor. -/
def Descriptor.base (descriptor : Descriptor) : UInt32 :=
  UInt32.ofNat (descriptor.highBase.toNat * 2 ^ 24 + descriptor.midBase.toNat * 2 ^ 16 +
    descriptor.lowBase.toNat)

/-! ## `interrupt.c` -/

/-- `__KERNEL_CS`. -/
def kernelCs : UInt16 := 0x10

/-- The entry that `setInterruptHandler` and `setTrapHandler` write, with the bits of the
type. -/
def gateEntry (kind : UInt16) (handler : UInt32) (maxAccessibleFromPL : Int32) : Gate where
  lowOffset := lowWord handler
  segmentSelector := kernelCs
  flags := (maxAccessibleFromPL.toUInt32 <<< 13).toUInt16 ||| kind
  highOffset := highWord handler

def setInterruptHandler (idt : UInt8 → Gate) (vector : UInt8) (handler : UInt32)
    (maxAccessibleFromPL : Int32) : UInt8 → Gate :=
  Function.update idt vector (gateEntry 0x8E00 handler maxAccessibleFromPL)

/-- `setTrapHandler`, whose type bits were changed to those of an interrupt gate. -/
def setTrapHandler (idt : UInt8 → Gate) (vector : UInt8) (handler : UInt32)
    (maxAccessibleFromPL : Int32) : UInt8 → Gate :=
  Function.update idt vector (gateEntry 0x8E00 handler maxAccessibleFromPL)

/-- Where the entry points of `entry.S` are. -/
structure EntryPoints where
  keyboardHandler : UInt32
  clockHandler : UInt32
  systemCallHandler : UInt32
  distinct : [keyboardHandler, clockHandler, systemCallHandler].Nodup

/-- `setIdt`; `set_handlers` installs the handlers of the exceptions. -/
def setIdt (entries : EntryPoints) (setHandlers : (UInt8 → Gate) → UInt8 → Gate)
    (idt : UInt8 → Gate) : UInt8 → Gate :=
  let idt := setHandlers idt
  let idt := setInterruptHandler idt 33 entries.keyboardHandler 0
  let idt := setInterruptHandler idt 32 entries.clockHandler 0
  setTrapHandler idt 0x80 entries.systemCallHandler 3

/-! ## `mm.c` -/

/-- `KERNEL_TSS >> 3`. -/
def tssEntry : Nat := 6

/-- What `setGdt` writes in the table: the base of the TSS. -/
def setGdt (gdt : Nat → Descriptor) (tss : UInt32) : Nat → Descriptor :=
  Function.update gdt tssEntry
    { gdt tssEntry with
      lowBase := lowWord tss
      midBase := midByte tss
      highBase := highByte tss }

/-! ## What the processor reads -/

variable {entries : EntryPoints} {setHandlers : (UInt8 → Gate) → UInt8 → Gate}
  {idt : UInt8 → Gate}

theorem and_mask_toNat (word : UInt32) (k : Nat) (few : k < 32) :
    (word &&& UInt32.ofNat (2 ^ k - 1)).toNat = word.toNat % 2 ^ k := by
  have small : 2 ^ k - 1 < 2 ^ 32 :=
    lt_of_le_of_lt (Nat.sub_le _ _) (Nat.pow_lt_pow_right (by decide) few)
  rw [UInt32.toNat_and, UInt32.toNat_ofNat', Nat.mod_eq_of_lt small, Nat.and_two_pow_sub_one_eq_mod]

theorem lowWord_toNat (address : UInt32) : (lowWord address).toNat = address.toNat % 2 ^ 16 := by
  have masked := and_mask_toNat address 16 (by decide)
  unfold lowWord
  rw [UInt32.toNat_toUInt16]
  exact (congrArg (· % 2 ^ 16) masked).trans (Nat.mod_mod _ _)

theorem shifted_toNat (address shift : UInt32) (small : shift.toNat < 32) :
    (address >>> shift).toNat = address.toNat / 2 ^ shift.toNat := by
  rw [UInt32.toNat_shiftRight, Nat.mod_eq_of_lt small, Nat.shiftRight_eq_div_pow]

theorem highWord_toNat (address : UInt32) : (highWord address).toNat = address.toNat / 2 ^ 16 := by
  have bounded := address.toNat_lt
  have masked := and_mask_toNat (address >>> 16) 16 (by decide)
  rw [shifted_toNat address 16 (by decide)] at masked
  unfold highWord
  rw [UInt32.toNat_toUInt16]
  refine (congrArg (· % 2 ^ 16) masked).trans ((Nat.mod_mod _ _).trans ?_)
  exact Nat.mod_eq_of_lt (by change address.toNat / 2 ^ 16 < 2 ^ 16; omega)

theorem midByte_toNat (address : UInt32) :
    (midByte address).toNat = address.toNat / 2 ^ 16 % 2 ^ 8 := by
  have masked := and_mask_toNat (address >>> 16) 8 (by decide)
  rw [shifted_toNat address 16 (by decide)] at masked
  unfold midByte
  rw [UInt32.toNat_toUInt8]
  exact (congrArg (· % 2 ^ 8) masked).trans (Nat.mod_mod _ _)

theorem highByte_toNat (address : UInt32) : (highByte address).toNat = address.toNat / 2 ^ 24 := by
  have bounded := address.toNat_lt
  have masked := and_mask_toNat (address >>> (16 + 8)) 8 (by decide)
  rw [shifted_toNat address (16 + 8) (by decide)] at masked
  unfold highByte
  rw [UInt32.toNat_toUInt8]
  refine (congrArg (· % 2 ^ 8) masked).trans ((Nat.mod_mod _ _).trans ?_)
  exact Nat.mod_eq_of_lt (by change address.toNat / 2 ^ 24 < 2 ^ 8; omega)

/-- The two words of an address. -/
theorem words_of_address (address : UInt32) :
    UInt32.ofNat ((highWord address).toNat * 2 ^ 16 + (lowWord address).toNat) = address := by
  rw [highWord_toNat, lowWord_toNat, Nat.div_add_mod']
  exact UInt32.ofNat_toNat

/-- Of the privilege level only the two bits of the field count. -/
theorem level_flags (pl : Int32) : (pl.toUInt32 <<< 13).toUInt16 =
    UInt16.ofNat (pl.toUInt32.toNat % 8 * 2 ^ 13) := by
  apply UInt16.toNat_inj.mp
  rw [UInt32.toNat_toUInt16, UInt32.toNat_shiftLeft, Nat.shiftLeft_eq, UInt16.toNat_ofNat']
  change pl.toUInt32.toNat * 2 ^ 13 % 2 ^ 32 % 2 ^ 16 = pl.toUInt32.toNat % 8 * 2 ^ 13 % 2 ^ 16
  omega

/-- The processor reads from an entry what it was given: an interrupt gate to the handler,
for programs of the given level and inner ones. -/
theorem gateEntry_decode (handler : UInt32) (pl : Int32) :
    (gateEntry 0x8E00 handler pl).decode =
      some ⟨handler, kernelCs.toUInt32, pl.toUInt32.toNat % 4, true⟩ := by
  have flags : ∀ n < 8,
      (UInt16.ofNat (n * 2 ^ 13) ||| 0x8E00).toNat / 2 ^ 15 = 1 ∧
        (UInt16.ofNat (n * 2 ^ 13) ||| 0x8E00).toNat / 2 ^ 8 % 2 ^ 5 = 14 ∧
        (UInt16.ofNat (n * 2 ^ 13) ||| 0x8E00).toNat / 2 ^ 13 % 4 = n % 4 := by decide
  obtain ⟨present, kind, dpl⟩ := flags (pl.toUInt32.toNat % 8) (Nat.mod_lt _ (by decide))
  unfold Gate.decode gateEntry
  dsimp only
  rw [level_flags, kind, dpl, if_pos ⟨present, Or.inl rfl⟩, words_of_address,
    Nat.mod_mod_of_dvd _ (by decide)]
  rfl

/-- With the type bits of a trap gate the entry would not mask interrupts. -/
theorem gateEntry_decode_trap (handler : UInt32) (pl : Int32) :
    (gateEntry 0x8F00 handler pl).decode =
      some ⟨handler, kernelCs.toUInt32, pl.toUInt32.toNat % 4, false⟩ := by
  have flags : ∀ n < 8,
      (UInt16.ofNat (n * 2 ^ 13) ||| 0x8F00).toNat / 2 ^ 15 = 1 ∧
        (UInt16.ofNat (n * 2 ^ 13) ||| 0x8F00).toNat / 2 ^ 8 % 2 ^ 5 = 15 ∧
        (UInt16.ofNat (n * 2 ^ 13) ||| 0x8F00).toNat / 2 ^ 13 % 4 = n % 4 := by decide
  obtain ⟨present, kind, dpl⟩ := flags (pl.toUInt32.toNat % 8) (Nat.mod_lt _ (by decide))
  unfold Gate.decode gateEntry
  dsimp only
  rw [level_flags, kind, dpl, if_pos ⟨present, Or.inr rfl⟩, words_of_address,
    Nat.mod_mod_of_dvd _ (by decide)]
  rfl

/-- The kernel's entry points, with the vector of each and the outermost level that may call
it. -/
inductive Handler where
  | keyboard
  | clock
  | systemCall
  deriving DecidableEq

def Handler.vector : Handler → UInt8
  | .keyboard => 33
  | .clock => 32
  | .systemCall => 0x80

def EntryPoints.address (entries : EntryPoints) : Handler → UInt32
  | .keyboard => entries.keyboardHandler
  | .clock => entries.clockHandler
  | .systemCall => entries.systemCallHandler

/-- Only system calls can be called by programs. -/
def EntryPoints.entrance (entries : EntryPoints) (handler : Handler) : Entrance where
  offset := entries.address handler
  selector := kernelCs.toUInt32
  dpl := if handler = .systemCall then 3 else 0
  masks := true

theorem setIdt_entrance (handler : Handler) :
    (setIdt entries setHandlers idt handler.vector).decode = some (entries.entrance handler) := by
  cases handler with
  | keyboard =>
      have entry : setIdt entries setHandlers idt 33 = gateEntry 0x8E00 entries.keyboardHandler 0 := by
        unfold setIdt setTrapHandler setInterruptHandler
        rw [Function.update_of_ne (by decide), Function.update_of_ne (by decide),
          Function.update_self]
      exact (congrArg Gate.decode entry).trans (gateEntry_decode _ _)
  | clock =>
      have entry : setIdt entries setHandlers idt 32 = gateEntry 0x8E00 entries.clockHandler 0 := by
        unfold setIdt setTrapHandler setInterruptHandler
        rw [Function.update_of_ne (by decide), Function.update_self]
      exact (congrArg Gate.decode entry).trans (gateEntry_decode _ _)
  | systemCall =>
      have entry : setIdt entries setHandlers idt 0x80 =
          gateEntry 0x8E00 entries.systemCallHandler 3 := by
        unfold setIdt setTrapHandler
        rw [Function.update_self]
      exact (congrArg Gate.decode entry).trans (gateEntry_decode _ _)

theorem setIdt_other {vector : UInt8} (other : ∀ handler : Handler, vector ≠ handler.vector) :
    setIdt entries setHandlers idt vector = setHandlers idt vector := by
  have notKeyboard : vector ≠ 33 := other .keyboard
  have notClock : vector ≠ 32 := other .clock
  have notCall : vector ≠ 0x80 := other .systemCall
  unfold setIdt setTrapHandler setInterruptHandler
  rw [Function.update_of_ne notCall, Function.update_of_ne notClock,
    Function.update_of_ne notKeyboard]

/-- The processor finds the TSS where it is. -/
theorem setGdt_base (gdt : Nat → Descriptor) (tss : UInt32) :
    (setGdt gdt tss tssEntry).base = tss := by
  have entry : setGdt gdt tss tssEntry = { gdt tssEntry with
      lowBase := lowWord tss
      midBase := midByte tss
      highBase := highByte tss } := Function.update_self _ _ _
  have bounded := tss.toNat_lt
  rw [entry]
  unfold Descriptor.base
  dsimp only
  rw [highByte_toNat, midByte_toNat, lowWord_toNat]
  refine Eq.trans (congrArg UInt32.ofNat ?_) UInt32.ofNat_toNat
  omega

end Zeos.Switch
