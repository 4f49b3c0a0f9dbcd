import Zeos.Utils

/-!
# Copying between disjoint blocks

`copy_data`, `copy_from_user` and `copy_to_user` in a flat memory of bytes, compared with
a copy byte by byte.
-/

namespace Zeos

open Library

/-- `copy_from_user`: its result and the memory it leaves. -/
def copyFromUser (start dest : UInt32) (size : Int) (memory : UInt32 → UInt8) :
    Option (Int × (UInt32 → UInt8)) :=
  (copyData some start dest size memory).map fun after => (0, after)

/-- `copy_to_user`. -/
def copyToUser (start dest : UInt32) (size : Int) (memory : UInt32 → UInt8) :
    Option (Int × (UInt32 → UInt8)) :=
  (copyData some start dest size memory).map fun after => (0, after)

section Flat

variable {start dest : UInt32} {size : Nat}

theorem flat_mapped (address : UInt32) (size : Nat) : Mapped some address size :=
  fun _ _ => rfl

theorem flat_apart (startFits : start.toNat + size ≤ 2 ^ 32)
    (destFits : dest.toNat + size ≤ 2 ^ 32)
    (disjoint : start.toNat + size ≤ dest.toNat ∨ dest.toNat + size ≤ start.toNat) :
    Apart some start dest size := by
  refine ⟨?_, ?_⟩
  · intro i iInside j jInside different same
    have place := congrArg UInt32.toNat (Option.some.inj same)
    rw [toNat_add_ofNat (by omega), toNat_add_ofNat (by omega)] at place
    omega
  · intro i iInside j jInside same
    have place := congrArg UInt32.toNat (Option.some.inj same)
    rw [toNat_add_ofNat (by omega), toNat_add_ofNat (by omega)] at place
    omega

end Flat

/-- The loops over double words and bytes copy like the loop over bytes alone. -/
theorem word_copy_is_byte_copy (memory : UInt32 → UInt8) (start dest : UInt32)
    (size : Int32) (startFits : start.toNat + size.toInt.toNat ≤ 2 ^ 32)
    (destFits : dest.toNat + size.toInt.toNat ≤ 2 ^ 32)
    (disjoint : start.toNat + size.toInt.toNat ≤ dest.toNat ∨
      dest.toNat + size.toInt.toNat ≤ start.toNat) :
    ∃ after,
      copyData some start dest size.toInt memory = some after ∧
      copyFromUser start dest size.toInt memory = some (0, after) ∧
      copyToUser start dest size.toInt memory = some (0, after) ∧
      copyBytes some start dest size.toInt memory = some after ∧
      (∀ k < size.toInt.toNat,
        after (dest + UInt32.ofNat k) = memory (start + UInt32.ofNat k)) ∧
      ∀ address, (∀ k < size.toInt.toNat, address ≠ dest + UInt32.ofNat k) →
        after address = memory address := by
  have apart := flat_apart startFits destFits disjoint
  have readable := flat_mapped start size.toInt.toNat
  have writable := flat_mapped dest size.toInt.toNat
  obtain ⟨after, words, copied⟩ := copyData_copied apart readable writable memory
  obtain ⟨last, bytes, copiedToo⟩ := copyBytes_copied apart readable writable
    (CopiedBytes.none start dest memory) (Nat.zero_add size.toInt.toNat)
  rw [add_ofNat_zero, add_ofNat_zero, copiedToo.unique copied] at bytes
  have call : (copyData some start dest size.toInt memory).map
      (fun after => ((0 : Int), after)) = some (0, after) := by
    rw [words, Option.map_some]
  refine ⟨after, words, call, call, bytes, ?_, ?_⟩
  · intro k inside
    exact Option.some.inj (copied.copied k inside)
  · intro address outside
    exact copied.beside address fun k inside same =>
      outside k inside (Option.some.inj same).symm

/-- Seven bytes between addresses that are not aligned. -/
theorem word_copy_is_byte_copy_seven :
    ∃ after, copyData some 0x1001 0x2003 (7 : Int32).toInt (fun address =>
        UInt8.ofNat address.toNat) = some after ∧
      after (0x2003 + UInt32.ofNat 6) = UInt8.ofNat (0x1001 + UInt32.ofNat 6).toNat := by
  obtain ⟨after, words, _, _, _, copied, _⟩ := word_copy_is_byte_copy
    (fun address => UInt8.ofNat address.toNat) 0x1001 0x2003 7 (by decide) (by decide)
    (Or.inl (by decide))
  exact ⟨after, words, copied 6 (by decide)⟩

end Zeos
