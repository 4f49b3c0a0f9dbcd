import Mathlib.Tactic.SplitIfs
import Zeos.Library.Transfers

/-!
# Copying memory

`copy_data` of `utils.c`, whose two loops are those of `copy_from_user` and of
`copy_to_user` too: double words while more than four bytes are left, and then
single bytes.  The result is `none` if the loops touch an address that is not
mapped.
-/

namespace Zeos

open Library

universe u

variable {Place : Type u} [DecidableEq Place]

/-- `while (size > 0)`: the loop over bytes. -/
def copyBytes (locate : UInt32 → Option Place) (p1 q1 : UInt32) (size : Int)
    (memory : Place → UInt8) : Option (Place → UInt8) :=
  if 0 < size then
    (move locate 1 p1 q1 memory).bind (copyBytes locate (p1 + 1) (q1 + 1) (size - 1))
  else
    some memory
termination_by size.toNat

/-- `copy_data`. -/
def copyData (locate : UInt32 → Option Place) (p q : UInt32) (size : Int)
    (memory : Place → UInt8) : Option (Place → UInt8) :=
  if size > 4 then
    (move locate 4 p q memory).bind (copyData locate (p + 4) (q + 4) (size - 4))
  else
    copyBytes locate p q size memory
termination_by size.toNat

variable {locate : UInt32 → Option Place} {start dest p q : UInt32} {size : Int}
  {memory before after : Place → UInt8} {count total : Nat}

/-! ## Faults -/

theorem copyBytes_mapped (ended : (copyBytes locate p q size memory).isSome) :
    Mapped locate p size.toNat ∧ Mapped locate q size.toNat := by
  induction left : size.toNat generalizing p q size memory with
  | zero =>
      exact ⟨fun k few => absurd few (Nat.not_lt_zero k),
        fun k few => absurd few (Nat.not_lt_zero k)⟩
  | succ bytes inductionHypothesis =>
      rw [copyBytes, if_pos (by omega)] at ended
      obtain ⟨after, copied⟩ := Option.isSome_iff_exists.mp ended
      obtain ⟨middle, moved, rest⟩ := Option.bind_eq_some_iff.mp copied
      obtain ⟨readable, writable⟩ := move_isSome.mp (Option.isSome_iff_exists.mpr ⟨_, moved⟩)
      have ended : (copyBytes locate (p + 1) (q + 1) (size - 1) middle).isSome :=
        Option.isSome_iff_exists.mpr ⟨_, rest⟩
      obtain ⟨later, beyond⟩ := inductionHypothesis ended (by omega)
      rw [Nat.add_comm bytes 1]
      exact ⟨mapped_add.mpr ⟨readable, later⟩, mapped_add.mpr ⟨writable, beyond⟩⟩

/-- A copy that ends has touched mapped addresses only. -/
theorem copyData_mapped (ended : (copyData locate p q size memory).isSome) :
    Mapped locate p size.toNat ∧ Mapped locate q size.toNat := by
  induction left : size.toNat using Nat.strongRecOn
    generalizing p q size memory with
  | _ left inductionHypothesis =>
      subst left
      rw [copyData] at ended
      split_ifs at ended with more
      · obtain ⟨after, copied⟩ := Option.isSome_iff_exists.mp ended
        obtain ⟨middle, moved, rest⟩ := Option.bind_eq_some_iff.mp copied
        obtain ⟨readable, writable⟩ :=
          move_isSome.mp (Option.isSome_iff_exists.mpr ⟨_, moved⟩)
        obtain ⟨later, beyond⟩ := inductionHypothesis (size - 4).toNat (by omega)
          (Option.isSome_iff_exists.mpr ⟨_, rest⟩) rfl
        rw [show size.toNat = 4 + (size - 4).toNat by omega]
        exact ⟨mapped_add.mpr ⟨readable, later⟩, mapped_add.mpr ⟨writable, beyond⟩⟩
      · exact copyBytes_mapped ended

/-! ## What is copied -/

theorem copyBytes_beside {place : Place} (ended : copyBytes locate p q size memory = some after)
    (untouched : ∀ k < size.toNat, locate (q + UInt32.ofNat k) ≠ some place) :
    after place = memory place := by
  induction left : size.toNat generalizing p q size memory with
  | zero =>
      rw [copyBytes, if_neg (by omega)] at ended
      rw [← Option.some.inj ended]
  | succ bytes inductionHypothesis =>
      rw [copyBytes, if_pos (by omega)] at ended
      obtain ⟨middle, moved, rest⟩ := Option.bind_eq_some_iff.mp ended
      have later : after place = middle place := by
        apply inductionHypothesis rest ?_ (by omega)
        intro k few
        rw [add_succ_ofNat]
        exact untouched (k + 1) (by omega)
      exact later.trans (move_beside moved fun k few => untouched k (by omega))

/-- Nothing but the destination is written, even if the blocks overlap. -/
theorem copyData_beside {place : Place} (ended : copyData locate p q size memory = some after)
    (untouched : ∀ k < size.toNat, locate (q + UInt32.ofNat k) ≠ some place) :
    after place = memory place := by
  induction left : size.toNat using Nat.strongRecOn generalizing p q size memory with
  | _ left inductionHypothesis =>
      subst left
      rw [copyData] at ended
      split_ifs at ended with more
      · obtain ⟨middle, moved, rest⟩ := Option.bind_eq_some_iff.mp ended
        have later : after place = middle place := by
          apply inductionHypothesis (size - 4).toNat (by omega) rest ?_ rfl
          intro k few
          rw [show (4 : UInt32) = UInt32.ofNat 4 from rfl, add_ofNat_add]
          exact untouched (4 + k) (by omega)
        exact later.trans (move_beside moved fun k few => untouched k (by omega))
      · exact copyBytes_beside ended untouched

theorem copyBytes_copied (apart : Apart locate start dest total)
    (readable : Mapped locate start total) (writable : Mapped locate dest total)
    (done : CopiedBytes locate start dest before count after)
    (left : count + size.toNat = total) :
    ∃ last, copyBytes locate (start + UInt32.ofNat count) (dest + UInt32.ofNat count)
        size after = some last ∧ CopiedBytes locate start dest before total last := by
  induction bytes : size.toNat generalizing count size after with
  | zero =>
      rw [copyBytes, if_neg (by omega)]
      rw [bytes, Nat.add_zero] at left
      exact ⟨after, rfl, left ▸ done⟩
  | succ bytes inductionHypothesis =>
      obtain ⟨middle, moved, more⟩ := done.move_next 1 apart (by omega) readable
        writable
      obtain ⟨last, rest, all⟩ := inductionHypothesis more
        (by omega : count + 1 + (size - 1).toNat = total) (by omega)
      refine ⟨last, ?_, all⟩
      rw [copyBytes, if_pos (by omega), moved, Option.bind_some]
      rw [← add_ofNat_add, ← add_ofNat_add] at rest
      exact rest

/-- The loops of `copy_data` after a part of the block is copied. -/
theorem copyData_rest (apart : Apart locate start dest total)
    (readable : Mapped locate start total) (writable : Mapped locate dest total)
    (done : CopiedBytes locate start dest before count after)
    (left : count + size.toNat = total) :
    ∃ last, copyData locate (start + UInt32.ofNat count) (dest + UInt32.ofNat count)
        size after = some last ∧ CopiedBytes locate start dest before total last := by
  induction bytes : size.toNat using Nat.strongRecOn
    generalizing count size after with
  | _ bytes inductionHypothesis =>
      subst bytes
      rw [copyData]
      split_ifs with more
      · obtain ⟨middle, moved, next⟩ := done.move_next 4 apart (by omega)
          readable writable
        obtain ⟨last, rest, all⟩ := inductionHypothesis (size - 4).toNat (by omega) next
          (by omega) rfl
        refine ⟨last, ?_, all⟩
        rw [moved, Option.bind_some]
        rw [← add_ofNat_add, ← add_ofNat_add] at rest
        exact rest
      · exact copyBytes_copied apart readable writable done left

/-- `copy_data` ends, and copies byte by byte, if the blocks are mapped and have
no place in common. -/
theorem copyData_copied (apart : Apart locate start dest size.toNat)
    (readable : Mapped locate start size.toNat) (writable : Mapped locate dest size.toNat)
    (before : Place → UInt8) :
    ∃ last, copyData locate start dest size before = some last ∧
      CopiedBytes locate start dest before size.toNat last := by
  have copied := copyData_rest apart readable writable
    (CopiedBytes.none start dest before) (Nat.zero_add size.toNat)
  rw [add_ofNat_zero, add_ofNat_zero] at copied
  exact copied

end Zeos
