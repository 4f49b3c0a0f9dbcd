import Mathlib.Data.List.Basic

/-!
# Byte strings

The value of a little-endian field, and overwriting a part of a file in place.
-/

namespace Zeos.Library

/-- The value of a field, least significant byte first. -/
def leValue : List UInt8 → Nat
  | [] => 0
  | byte :: bytes => byte.toNat + 256 * leValue bytes

/-- The lowest `count` bytes of a value, least significant byte first. -/
def leBytes : Nat → Nat → List UInt8
  | 0, _ => []
  | count + 1, value => UInt8.ofNat value :: leBytes count (value / 256)

theorem leBytes_leValue : ∀ bytes : List UInt8,
    leBytes bytes.length (leValue bytes) = bytes
  | [] => rfl
  | byte :: bytes => by
      have small := byte.toNat_lt
      have low : UInt8.ofNat (byte.toNat + 256 * leValue bytes) = byte := by
        apply UInt8.toNat_inj.mp
        rw [UInt8.toNat_ofNat']
        omega
      have high : (byte.toNat + 256 * leValue bytes) / 256 = leValue bytes := by
        omega
      rw [List.length_cons, leValue, leBytes, low, high, leBytes_leValue bytes]

/-- The field of `count` bytes at `offset`. -/
def fieldAt (file : List UInt8) (offset count : Nat) : Nat :=
  leValue ((file.drop offset).take count)

/-- A file after `bytes` were written at `offset`, which is not behind its
end. -/
def splice (file : List UInt8) (offset : Nat) (bytes : List UInt8) : List UInt8 :=
  file.take offset ++ bytes ++ file.drop (offset + bytes.length)

variable {file other bytes : List UInt8} {offset place count : Nat}

theorem length_splice (inside : offset + bytes.length ≤ file.length) :
    (splice file offset bytes).length = file.length := by
  unfold splice
  rw [List.length_append, List.length_append, List.length_take, List.length_drop]
  omega

theorem le_length_splice (bytes : List UInt8) (reached : offset ≤ file.length) :
    offset + bytes.length ≤ (splice file offset bytes).length := by
  unfold splice
  rw [List.length_append, List.length_append, List.length_take]
  omega

theorem getElem?_splice (reached : offset ≤ file.length) (i : Nat) :
    (splice file offset bytes)[i]? =
      if offset ≤ i ∧ i < offset + bytes.length then bytes[i - offset]?
      else file[i]? := by
  have taken : (file.take offset).length = offset := by
    rw [List.length_take]
    omega
  unfold splice
  rw [List.append_assoc, List.getElem?_append, taken]
  by_cases before : i < offset
  · rw [if_pos before, if_neg (by omega), List.getElem?_take_of_lt before]
  · rw [if_neg before, List.getElem?_append]
    by_cases within : i - offset < bytes.length
    · rw [if_pos within, if_pos (by omega)]
    · rw [if_neg within, if_neg (by omega), List.getElem?_drop]
      congr 1
      omega

/-- A field is the bytes at its places. -/
theorem fieldAt_congr
    (same : ∀ i, place ≤ i → i < place + count → file[i]? = other[i]?) :
    fieldAt file place count = fieldAt other place count := by
  have bytesSame : (file.drop place).take count = (other.drop place).take count := by
    apply List.ext_getElem?
    intro i
    rw [List.getElem?_take, List.getElem?_take]
    by_cases within : i < count
    · rw [if_pos within, if_pos within, List.getElem?_drop, List.getElem?_drop]
      exact same _ (by omega) (by omega)
    · rw [if_neg within, if_neg within]
  rw [fieldAt, fieldAt, bytesSame]

/-- The field that was written last. -/
theorem fieldAt_splice_self (reached : offset ≤ file.length) :
    fieldAt (splice file offset bytes) offset bytes.length = leValue bytes := by
  have taken : (file.take offset).length = offset := by
    rw [List.length_take]
    omega
  unfold fieldAt splice
  rw [List.append_assoc, List.drop_left' taken, List.take_left]

/-- A field beside the bytes that are written. -/
theorem fieldAt_splice_of_disjoint (reached : offset ≤ file.length)
    (beside : place + count ≤ offset ∨ offset + bytes.length ≤ place) :
    fieldAt (splice file offset bytes) place count = fieldAt file place count := by
  apply fieldAt_congr
  intro i after before
  rw [getElem?_splice reached, if_neg (by omega)]

end Zeos.Library
