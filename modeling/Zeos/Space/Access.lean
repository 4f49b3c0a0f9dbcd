import Zeos.Sys

/-!
# What `access_ok` admits

The check compares the first page of a block and the page of the address behind
its last byte with the pages of a process.  Its write case falls through to the
read case, the address behind the block may lie anywhere in the page behind the
data pages, and a block that wraps around to the page where it begins passes.
-/

namespace Zeos

variable {type : Access} {addr size : UInt32} {first last : Nat}

/-- The pages of a process that a block may lie in: all of them to be read, the
data pages to be written. -/
def Access.InPages (type : Access) (page : Nat) : Prop :=
  (match type with
    | .verifyRead => pagLogInitCode
    | .verifyWrite => pagLogInitData) ≤ page ∧
  page < pagLogInitCode + numPagCode + numPagData

/-- Every byte of the block, whose addresses do not wrap around, is in the pages
of a process. -/
def Access.Inside (type : Access) (addr size : UInt32) : Prop :=
  ∀ i < size.toNat, type.InPages ((addr.toNat + i) / pageSize)

/-- The blocks that `access_ok` admits although they are not inside: those that
end in the page behind the data pages, those that are to be written and begin in
the code pages, and those that wrap around to their first page. -/
def Misjudged (type : Access) (addr size : UInt32) : Prop :=
  pagLogInitCode * pageSize ≤ addr.toNat ∧
    ((addr.toNat + size.toNat < heapStart + pageSize ∧
        (heapStart < addr.toNat + size.toNat ∨
          (type = .verifyWrite ∧ addr.toNat < pagLogInitData * pageSize))) ∨
      (addr.toNat < heapStart + pageSize ∧ 2 ^ 32 ≤ addr.toNat + size.toNat ∧
        (addr.toNat + size.toNat - 2 ^ 32) / pageSize = addr.toNat / pageSize))

/-- Both cases come to the same comparison. -/
theorem accessOk_iff : accessOk type addr size = true ↔
    pagLogInitCode ≤ addr.toNat / pageSize ∧
      (addr + size).toNat / pageSize ≤ heapInitPage ∧
      addr.toNat / pageSize ≤ (addr + size).toNat / pageSize := by
  have order : pagLogInitCode ≤ pagLogInitCode + numPagCode := by decide
  have data : pagLogInitCode + numPagCode + numPagData = heapInitPage := rfl
  unfold accessOk
  dsimp only
  by_cases wraps : (addr + size).toNat / pageSize < addr.toNat / pageSize
  · rw [if_pos wraps]
    exact iff_of_false (by simp) fun pages => absurd wraps (Nat.not_lt.mpr pages.2.2)
  · rw [if_neg wraps, data]
    have ordered := Nat.le_of_not_lt wraps
    cases type with
    | verifyRead =>
        simp only [Bool.and_eq_true, decide_eq_true_eq, ordered, and_true]
    | verifyWrite =>
        simp only [Bool.or_eq_true, Bool.and_eq_true, decide_eq_true_eq, ordered, and_true]
        constructor
        · rintro (strict | loose)
          · exact ⟨le_trans order strict.1, strict.2⟩
          · exact loose
        · exact Or.inr

/-- All bytes of a block are in a range of pages if its ends are. -/
theorem pages_iff {start count : Nat} (positive : 0 < count) :
    (∀ i < count, first ≤ (start + i) / pageSize ∧ (start + i) / pageSize < last) ↔
      first * pageSize ≤ start ∧ start + count ≤ last * pageSize := by
  simp only [pageSize]
  constructor
  · intro inside
    have lower := (inside 0 positive).1
    have upper := (inside (count - 1) (by omega)).2
    omega
  · intro ends i few
    omega

theorem Access.inside_iff (positive : 1 ≤ size.toNat) :
    type.Inside addr size ↔
      pagLogInitCode * pageSize ≤ addr.toNat ∧
        (type = .verifyWrite → pagLogInitData * pageSize ≤ addr.toNat) ∧
        addr.toNat + size.toNat ≤ heapStart := by
  have ends : ∀ first, (∀ i < size.toNat, first ≤ (addr.toNat + i) / pageSize ∧
      (addr.toNat + i) / pageSize < heapInitPage) ↔
        first * pageSize ≤ addr.toNat ∧ addr.toNat + size.toNat ≤ heapInitPage * pageSize :=
    fun first => pages_iff positive
  cases type with
  | verifyRead =>
      refine (ends pagLogInitCode).trans ?_
      simp
  | verifyWrite =>
      refine (ends pagLogInitData).trans ?_
      simp
      omega

/-- `access_ok` is exact but for the misjudged blocks. -/
theorem accessOk_exact (type : Access) (addr size : UInt32) (positive : 1 ≤ size.toNat) :
    (accessOk type addr size = true ↔ type.Inside addr size) ↔
      ¬Misjudged type addr size := by
  have addrBound := addr.toNat_lt
  have sizeBound := size.toNat_lt
  have isWrite : type = .verifyWrite ∨ type ≠ .verifyWrite := Classical.em _
  rw [accessOk_iff, Access.inside_iff positive, UInt32.toNat_add, Misjudged]
  simp only [pageSize, heapStart, heapInitPage, pagLogInitData, pagLogInitCode, numPagCode,
    numPagData]
  rcases isWrite with write | read
  · simp only [write, true_and, true_implies]
    omega
  · simp only [read, false_and, false_implies, true_and, or_false]
    omega

/-- The last byte of the data pages, to be written. -/
theorem accessOk_exact_last : accessOk .verifyWrite 0x11BFFF 1 = true ↔
    Access.Inside .verifyWrite 0x11BFFF 1 :=
  (accessOk_exact .verifyWrite 0x11BFFF 1 (by decide)).mpr (by
    unfold Misjudged
    decide)

/-- A code page may be written. -/
theorem accessOk_code_written : accessOk .verifyWrite 0x100000 1 = true ∧
    ¬Access.Inside .verifyWrite 0x100000 1 := by
  refine ⟨by decide, fun inside => ?_⟩
  have data := (inside 0 (by decide)).1
  exact absurd data (by decide)

end Zeos
