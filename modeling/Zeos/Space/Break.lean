import Zeos.Heap
import Zeos.Space.Pages

/-!
# What `sys_sbrk` does to memory

`SbrkEffect` is the inversion of one call that ends without a fault.  The
growing loop maps fresh frames behind the heap pages.  The loop that gives
pages back frees the frames of the last pages of the heap, but clears the
entries one page further up: the entry of the lowest freed page stays, and the
entry behind the heap goes.
-/

namespace Zeos

open Library (Holdings)

variable {t t₁ t₂ : TaskStruct} {mm mm₁ mm₂ : Memory} {count : Nat}
  {increment : Int}

/-- The number of the page behind the heap pages. -/
def heapEnd (t : TaskStruct) : Nat := (heapInitPage + t.heapPages).toNat

theorem heapEnd_eq (nonneg : 0 ≤ t.heapPages) :
    (heapEnd t : Int) = heapInitPage + t.heapPages := by
  unfold heapEnd
  omega

/-! ## Giving pages back -/

/-- One round of the releasing loop. -/
theorem releasePages_succ (count : Nat) (t : TaskStruct) (mm : Memory)
    (noFault : (releasePages (count + 1) t mm).2.fault = false) :
    let last : Int := heapInitPage + t.heapPages - 1
    Memory.InTable last ∧ Memory.InTable (last + 1) ∧
      releasePages (count + 1) t mm =
        releasePages count { t with heapPages := t.heapPages - 1 }
          ((mm.freeFrame (mm.getFrame t.dirPagesBaseAddr last.toNat)).delSsPag
            t.dirPagesBaseAddr (last + 1)) := by
  rw [releasePages] at noFault ⊢
  dsimp only at noFault ⊢
  split_ifs at noFault with inTable
  · exact ⟨inTable.1, inTable.2, if_pos inTable⟩
  · rw [releasePages_stray _ _ _ rfl] at noFault
    cases noFault

/-- The loop stays inside the table. -/
theorem releasePages_spec (count : Nat) (t : TaskStruct) (mm : Memory)
    (noFault : (releasePages count t mm).2.fault = false) :
    mm.fault = false ∧
      (releasePages count t mm).1 =
        { t with heapPages := t.heapPages - count } ∧
      (count ≠ 0 → (count : Int) ≤ heapInitPage + t.heapPages ∧
        heapInitPage + t.heapPages < totalPages) ∧
      Memory.Edit t.dirPagesBaseAddr
        (fun p => heapInitPage + t.heapPages - count < p ∧
          p ≤ heapInitPage + t.heapPages) mm (releasePages count t mm).2 := by
  induction count generalizing t mm with
  | zero => exact ⟨noFault, by simp [releasePages], by simp, .refl _ _ _⟩
  | succ count inductionHypothesis =>
      obtain ⟨lower, upper, round⟩ := releasePages_succ count t mm noFault
      rw [round] at noFault ⊢
      obtain ⟨middle, fields, bounds, edit⟩ := inductionHypothesis _ _ noFault
      obtain ⟨_, freed⟩ := Memory.delSsPag_noFault middle
      rw [(Memory.freeFrame_table mm _).2.2] at freed
      have nonneg := lower.1
      have inside := upper.2
      refine ⟨freed, ?_, ?_, ?_⟩
      · rw [fields]
        congr 1
        push_cast
        omega
      · intro _
        refine ⟨?_, by omega⟩
        by_cases isLast : count = 0
        · subst isLast
          omega
        · have bound := (bounds isLast).1
          dsimp only at bound
          push_cast
          omega
      · have freeing := Memory.freeFrame_edit t.dirPagesBaseAddr
          (fun p : Nat =>
            heapInitPage + t.heapPages - (count + 1 : Nat) < p ∧
              p ≤ heapInitPage + t.heapPages)
          mm (mm.getFrame t.dirPagesBaseAddr
            (heapInitPage + t.heapPages - 1).toNat)
        apply freeing.trans
        apply ((Memory.delSsPag_edit upper).mono fun p same => ?_).trans
        · apply edit.mono
          intro p range
          dsimp only at range
          push_cast at range ⊢
          omega
        · push_cast
          omega

/-- The entries that the loop clears. -/
theorem releasePages_table (count : Nat) (t : TaskStruct) (mm : Memory)
    (noFault : (releasePages count t mm).2.fault = false) (d : DirId) (p : Nat) :
    (releasePages count t mm).2.pagusrTable d p =
      if d = t.dirPagesBaseAddr ∧ heapInitPage + t.heapPages - count < p ∧
          p ≤ heapInitPage + t.heapPages then {}
      else mm.pagusrTable d p := by
  induction count generalizing t mm with
  | zero =>
      rw [if_neg (by push_cast; omega)]
      rfl
  | succ count inductionHypothesis =>
      obtain ⟨_, upper, round⟩ := releasePages_succ count t mm noFault
      rw [round] at noFault ⊢
      rw [inductionHypothesis _ _ noFault]
      dsimp only
      unfold Memory.delSsPag
      rw [Memory.setEntry_table upper, (Memory.freeFrame_table mm _).1]
      by_cases own : d = t.dirPagesBaseAddr
      · simp only [own, true_and]
        push_cast
        split_ifs <;> first | rfl | omega
      · simp only [own, false_and, if_false]

/-- The loop ends when the pages it gives back are in the table. -/
theorem releasePages_noFault (count : Nat) (t : TaskStruct) (mm : Memory)
    (lower : (count : Int) ≤ heapInitPage + t.heapPages)
    (upper : heapInitPage + t.heapPages < totalPages)
    (noFault : mm.fault = false) :
    (releasePages count t mm).2.fault = false := by
  induction count generalizing t mm with
  | zero => exact noFault
  | succ count inductionHypothesis =>
      push_cast at lower
      have last : Memory.InTable (heapInitPage + t.heapPages - 1) := by
        constructor <;> omega
      have next : Memory.InTable (heapInitPage + t.heapPages - 1 + 1) := by
        constructor <;> omega
      unfold releasePages
      dsimp only
      rw [if_pos ⟨last, next⟩]
      apply inductionHypothesis
      · dsimp only
        omega
      · dsimp only
        omega
      · unfold Memory.delSsPag Memory.setEntry
        rw [if_pos next]
        exact (Memory.freeFrame_table mm _).2.2.trans noFault

/-- A round takes the entry of a page away, and the frame of the page below it. -/
theorem releaseRound_holdings {dir : DirId} {last : Nat} (tidy : mm.Tidy)
    (high : pagLogInitData ≤ last) (upper : Memory.InTable ((last + 1 : Nat) : Int)) :
    let after := (mm.freeFrame (mm.getFrame dir last)).delSsPag dir ((last + 1 : Nat) : Int)
    after.Tidy ∧
      (∀ d p, after.holdings.held (d, p) =
        if d = dir ∧ p = last + 1 then none else mm.holdings.held (d, p)) ∧
      ∀ f, after.holdings.used f ↔
        mm.holdings.used f ∧ mm.holdings.held (dir, last) ≠ some f := by
  have freedTidy := (Memory.freeFrame_edit dir (fun _ => True) mm
    (mm.getFrame dir last)).tidy tidy
  have freedHeld : (mm.freeFrame (mm.getFrame dir last)).holdings.held = mm.holdings.held := by
    unfold Memory.holdings Memory.getFrame
    rw [(Memory.freeFrame_table mm _).1]
  refine ⟨(Memory.delSsPag_edit upper).tidy freedTidy, ?_, ?_⟩
  · intro d p
    rw [Memory.delSsPag_holdings upper]
    by_cases same : d = dir ∧ p = last + 1
    · obtain ⟨rfl, rfl⟩ := same
      simp
    · rw [if_neg same, Holdings.vacate_of_ne (by simpa using same), freedHeld]
  · intro f
    rw [Memory.delSsPag_holdings upper]
    exact Memory.freeFrame_used_iff tidy high f

/-- The heap pages that lose their frames are those below the ones that lose
their entries. -/
theorem releasePages_holdings (count : Nat) (t : TaskStruct) (mm : Memory)
    (tidy : mm.Tidy) (enough : (count : Int) ≤ t.heapPages)
    (noFault : (releasePages count t mm).2.fault = false) :
    (∀ d (p : Nat), (releasePages count t mm).2.holdings.held (d, p) =
      if d = t.dirPagesBaseAddr ∧ heapInitPage + t.heapPages - count < p ∧
          p ≤ heapInitPage + t.heapPages then none
      else mm.holdings.held (d, p)) ∧
    (∀ f, (releasePages count t mm).2.holdings.used f ↔
      mm.holdings.used f ∧
        ∀ p : Nat, heapInitPage + t.heapPages - count ≤ p →
          p < heapInitPage + t.heapPages →
            mm.holdings.held (t.dirPagesBaseAddr, p) ≠ some f) := by
  induction count generalizing t mm with
  | zero =>
      constructor
      · intro d p
        rw [if_neg]
        · rfl
        · push_cast
          omega
      · intro f
        constructor
        · intro used
          refine ⟨used, fun p lower upper => ?_⟩
          push_cast at lower
          omega
        · exact fun both => both.1
  | succ count inductionHypothesis =>
      obtain ⟨lower, upper, round⟩ := releasePages_succ count t mm noFault
      rw [round] at noFault ⊢
      obtain ⟨last, lastEq⟩ := Int.eq_ofNat_of_zero_le lower.1
      have next : heapInitPage + t.heapPages - 1 + 1 = ((last + 1 : Nat) : Int) := by
        push_cast
        omega
      rw [next] at upper
      have high : pagLogInitData ≤ last := by
        push_cast at enough
        simp only [heapInitPage, numPagData] at lastEq
        omega
      rw [next, lastEq, Int.toNat_natCast] at noFault ⊢
      obtain ⟨middleTidy, oneHeld, oneUsed⟩ := releaseRound_holdings tidy high upper
      obtain ⟨held, used⟩ := inductionHypothesis _ _ middleTidy
        (by dsimp only; push_cast at enough; omega) noFault
      dsimp only at held used
      constructor
      · intro d p
        rw [held, oneHeld]
        by_cases sameDir : d = t.dirPagesBaseAddr
        · simp only [sameDir, true_and]
          by_cases emptied : heapInitPage + t.heapPages - (count + 1 : Nat) < p ∧
              p ≤ heapInitPage + t.heapPages
          · rw [if_pos emptied]
            by_cases isLast : p = last + 1
            · simp [isLast]
            · rw [if_pos (by push_cast at emptied; omega)]
          · rw [if_neg emptied, if_neg (by push_cast at emptied; omega),
              if_neg (by push_cast at emptied; omega)]
        · simp only [sameDir, false_and, if_false]
      · intro f
        rw [used, oneUsed]
        constructor
        · rintro ⟨⟨before, own⟩, others⟩
          refine ⟨before, fun p above below holds => ?_⟩
          by_cases isLast : p = last
          · exact own (isLast ▸ holds)
          · refine others p (by push_cast at above ⊢; omega) (by omega) ?_
            rw [oneHeld, if_neg (by omega)]
            exact holds
        · rintro ⟨before, all⟩
          refine ⟨⟨before, all last (by push_cast; omega) (by omega)⟩, ?_⟩
          intro p above below
          rw [oneHeld, if_neg (by omega)]
          exact all p (by push_cast; omega) (by omega)

/-! ## Growing -/

/-- The growing loop maps all pages, or it runs out of frames and releases
those it mapped. -/
theorem growHeap_cases (count i : Nat) (t : TaskStruct) (mm : Memory)
    (nonneg : 0 ≤ t.heapPages)
    (noFault : (growHeap count i t mm).2.2.fault = false) :
    mm.fault = false ∧
      ((∃ mm₁, growHeap count i t mm =
          (true, { t with heapPages := t.heapPages + count }, mm₁) ∧
          Memory.Maps t.dirPagesBaseAddr (heapEnd t) count mm mm₁) ∨
        (∃ k mm₁, k < count ∧ mm₁.freeFrames = 0 ∧
          Memory.Maps t.dirPagesBaseAddr (heapEnd t) k mm mm₁ ∧
          growHeap count i t mm = (false, releasePages (i + k)
            { t with heapPages := t.heapPages + k } mm₁))) := by
  induction count generalizing i t mm with
  | zero =>
      exact ⟨noFault, Or.inl ⟨mm, by simp [growHeap], .done⟩⟩
  | succ count inductionHypothesis =>
      cases found : mm.allocFrame with
      | none =>
          have stops : growHeap (count + 1) i t mm =
              (false, releasePages i t mm) := by
            simp only [growHeap, found]
          rw [stops] at noFault
          have before := (releasePages_spec i t mm noFault).1
          refine ⟨before, Or.inr ⟨0, mm, by omega,
            Memory.allocFrame_none_iff.mp found, .done, ?_⟩⟩
          rw [stops]
          simp
      | some reserved =>
          obtain ⟨frame, mm₁⟩ := reserved
          have page : (heapInitPage + t.heapPages : Int) = heapEnd t :=
            (heapEnd_eq nonneg).symm
          by_cases inTable : Memory.InTable (heapInitPage + t.heapPages : Int)
          · have goesOn : growHeap (count + 1) i t mm =
                growHeap count (i + 1) { t with heapPages := t.heapPages + 1 }
                  (mm₁.setSsPag t.dirPagesBaseAddr
                    (heapInitPage + t.heapPages : Int) frame) := by
              simp only [growHeap, found]
            rw [goesOn] at noFault ⊢
            obtain ⟨middle, outcome⟩ := inductionHypothesis (i + 1)
              { t with heapPages := t.heapPages + 1 } _
              (by dsimp only; omega) noFault
            obtain ⟨_, before⟩ := Memory.setSsPag_noFault middle
            have bound : heapEnd t < totalPages := by
              have upper := inTable.2
              omega
            have nextEnd : heapEnd { t with heapPages := t.heapPages + 1 } =
                heapEnd t + 1 := by
              unfold heapEnd
              dsimp only
              omega
            obtain ⟨_, _, _, rfl, _⟩ := Memory.allocFrame_some found
            refine ⟨before, ?_⟩
            rw [nextEnd, page] at outcome
            rw [page]
            rcases outcome with ⟨mm₂, finished, maps⟩ |
              ⟨k, mm₂, short, empty, maps, stopped⟩
            · refine Or.inl ⟨mm₂, ?_, .next bound found maps⟩
              rw [finished]
              congr 3
              push_cast
              omega
            · refine Or.inr ⟨k + 1, mm₂, by omega, empty,
                .next bound found maps, ?_⟩
              rw [stopped]
              congr 2
              · omega
              · congr 1
                push_cast
                omega
          · have strays : (growHeap (count + 1) i t mm).2.2.fault = true := by
              simp only [growHeap, found]
              exact growHeap_stray _ _ _ _ (Memory.setSsPag_stray inTable)
            rw [strays] at noFault
            cases noFault

/-- The growing loop ends when all free frames fit in the table behind the
heap. -/
theorem growHeap_noFault (count i : Nat) (t : TaskStruct) (mm : Memory)
    (mapped : (i : Int) ≤ t.heapPages)
    (room : heapInitPage + t.heapPages + mm.freeFrames < totalPages)
    (noFault : mm.fault = false) :
    (growHeap count i t mm).2.2.fault = false := by
  induction count generalizing i t mm with
  | zero => exact noFault
  | succ count inductionHypothesis =>
      unfold growHeap
      cases found : mm.allocFrame with
      | none =>
          exact releasePages_noFault i t mm (by omega) (by omega) noFault
      | some reserved =>
          obtain ⟨frame, mm₁⟩ := reserved
          obtain ⟨_, _, _, rfl, counted⟩ := Memory.allocFrame_some found
          have inTable : Memory.InTable (heapInitPage + t.heapPages) := by
            constructor <;> omega
          dsimp only
          apply inductionHypothesis
          · push_cast
            omega
          · rw [Memory.setSsPag_freeFrames]
            dsimp only
            omega
          · unfold Memory.setSsPag Memory.setEntry
            rw [if_pos inTable]
            exact noFault

/-! ## The page counts of a call -/

/-- `heapSize` after a growing call. -/
def grownSize (increment : Int) (t : TaskStruct) : Int :=
  if increment = 0 then t.heapSize else int32 (t.heapSize + increment)

/-- The pages that a growing call asks for: none in the path that needs no new
page, else the value of `n` as a number of rounds. -/
def newPages (increment : Int) (t : TaskStruct) : Nat :=
  if 0 < increment ∧ ¬ int32 (t.heapSize.tmod pageSize + increment) < pageSize then
    rounds (int32 ((grownSize increment t).tdiv pageSize - t.heapPages))
  else
    0

/-- Only a call with a positive increment asks for pages. -/
theorem pos_of_newPages (asks : newPages increment t ≠ 0) : 0 < increment := by
  by_contra notPositive
  exact asks (if_neg fun positive => notPositive positive.1)

/-- `heapSize` after a shrinking call. -/
def shrunkSize (increment : Int) (t : TaskStruct) : Int :=
  if int32 (t.heapSize + increment) ≤ 0 then 0
  else int32 (t.heapSize + increment)

/-- The pages that a shrinking call gives back, as a number of rounds. -/
def pagesBack (increment : Int) (t : TaskStruct) : Nat :=
  if increment < 0 then
    rounds (int32 (t.heapPages - ((shrunkSize increment t).tdiv pageSize + 1)))
  else
    0

theorem shrunkSize_range (increment : Int) (t : TaskStruct) :
    0 ≤ shrunkSize increment t ∧ shrunkSize increment t < 2 ^ 31 := by
  have range := int32_range (t.heapSize + increment)
  unfold shrunkSize
  split_ifs <;> omega

/-- What a growing call asks for when its new break is a C `int`. -/
theorem newPages_of_fit (size : 0 ≤ t.heapSize) (positive : 0 < increment)
    (fits : t.heapSize + increment < 2 ^ 31) :
    grownSize increment t = t.heapSize + increment ∧
      newPages increment t =
        if t.heapSize % pageSize + increment < pageSize then 0
        else rounds (int32 ((t.heapSize + increment) / pageSize - t.heapPages)) := by
  have grown : grownSize increment t = t.heapSize + increment := by
    unfold grownSize
    rw [if_neg (by omega), int32_of_range (by omega) (by omega)]
  have offset : int32 (t.heapSize.tmod pageSize + increment) =
      t.heapSize % pageSize + increment := by
    rw [Int.tmod_eq_emod_of_nonneg size]
    exact int32_of_range (by simp only [pageSize]; omega)
      (by simp only [pageSize]; omega)
  refine ⟨grown, ?_⟩
  unfold newPages
  rw [offset, grown, Int.tdiv_eq_ediv_of_nonneg (by omega)]
  split_ifs <;> first | rfl | omega

theorem pagesBack_eq (shrinking : increment < 0) :
    pagesBack increment t =
      rounds (int32 (t.heapPages - (shrunkSize increment t / pageSize + 1))) := by
  unfold pagesBack
  rw [if_pos shrinking,
    Int.tdiv_eq_ediv_of_nonneg (shrunkSize_range increment t).1]

/-- A count that the loop survives is the one that was meant. -/
theorem pagesBack_cases (nonneg : 0 ≤ t.heapPages)
    (bounds : pagesBack increment t ≠ 0 →
      (pagesBack increment t : Int) ≤ heapInitPage + t.heapPages ∧
        heapInitPage + t.heapPages < totalPages) :
    pagesBack increment t = 0 ∨
      (pagesBack increment t : Int) =
        t.heapPages - (shrunkSize increment t / pageSize + 1) := by
  by_cases none : pagesBack increment t = 0
  · exact Or.inl none
  · obtain ⟨few, inside⟩ := bounds none
    have sizeRange := shrunkSize_range increment t
    right
    unfold pagesBack rounds at none few ⊢
    split_ifs at none few ⊢
    · rw [Int.tdiv_eq_ediv_of_nonneg sizeRange.1] at none few ⊢
      simp only [pageSize, heapInitPage, pagLogInitData, pagLogInitCode,
        numPagCode, numPagData, totalPages] at none few inside sizeRange ⊢
      rw [int32_of_range (by omega) (by omega)] at few ⊢
      omega
    · exact absurd rfl none

/-! ## The effect of a call -/

/-- `sys_sbrk` after the case of a missing heap, when a frame was found. -/
def openHeap (t : TaskStruct) (mm : Memory) : TaskStruct × Memory :=
  if t.heap = 0 then
    match mm.allocFrame with
    | none => (t, mm)
    | some (f, mm) =>
        ({ t with heap := heapStart, heapPages := 1 },
          mm.setSsPag t.dirPagesBaseAddr heapInitPage f)
  else
    (t, mm)

/-- The outcomes of a call that ends without a fault: the result, the PCB and
memory. -/
inductive SbrkEffect (increment : Int) (t : TaskStruct) (mm : Memory) :
    Int → TaskStruct → Memory → Prop
  | refused :
      t.heap = 0 →
      increment < 0 ∨ mm.freeFrames = 0 →
      SbrkEffect increment t mm (-enomem) t mm
  | grown {t₁ : TaskStruct} {mm₁ mm₂ : Memory} :
      0 ≤ increment →
      openHeap t mm = (t₁, mm₁) →
      Memory.Maps t.dirPagesBaseAddr (heapEnd t₁) (newPages increment t₁) mm₁
        mm₂ →
      SbrkEffect increment t mm (int32 (heapStart + t₁.heapSize))
        { t₁ with
          heapSize := grownSize increment t₁
          heapPages := t₁.heapPages + newPages increment t₁ } mm₂
  | short {t₁ : TaskStruct} {mm₁ mm₂ mm₃ : Memory} {k : Nat} :
      openHeap t mm = (t₁, mm₁) →
      Memory.Maps t.dirPagesBaseAddr (heapEnd t₁) k mm₁ mm₂ →
      mm₂.freeFrames = 0 →
      k < newPages increment t₁ →
      (releasePages k { t₁ with
        heapSize := grownSize increment t₁
        heapPages := t₁.heapPages + k } mm₂).2 = mm₃ →
      SbrkEffect increment t mm (-enomem)
        { t₁ with heapSize := int32 (grownSize increment t₁ - increment) } mm₃
  | shrunk {mm₁ : Memory} :
      increment < 0 →
      t.heap ≠ 0 →
      (releasePages (pagesBack increment t)
        { t with heapSize := shrunkSize increment t } mm).2 = mm₁ →
      SbrkEffect increment t mm (int32 (heapStart + shrunkSize increment t))
        { t with
          heapSize := shrunkSize increment t
          heapPages := t.heapPages - pagesBack increment t } mm₁

theorem openHeap_dir (t : TaskStruct) (mm : Memory) :
    (openHeap t mm).1.dirPagesBaseAddr = t.dirPagesBaseAddr := by
  unfold openHeap
  split_ifs
  · split <;> rfl
  · rfl

theorem openHeap_nonneg (mm : Memory) (nonneg : 0 ≤ t.heapPages) :
    0 ≤ (openHeap t mm).1.heapPages := by
  unfold openHeap
  split_ifs
  · split
    · exact nonneg
    · exact Int.one_nonneg
  · exact nonneg

theorem openHeap_pcb (opened : openHeap t mm = (t₁, mm₁))
    (nonneg : 0 ≤ t.heapPages) :
    0 ≤ t₁.heapPages ∧ t₁.dirPagesBaseAddr = t.dirPagesBaseAddr := by
  have bound := openHeap_nonneg mm nonneg
  have sameDir := openHeap_dir t mm
  rw [opened] at bound sameDir
  exact ⟨bound, sameDir⟩

theorem moveBreak_grow {result : Int} {t' : TaskStruct} {mm' : Memory}
    (growing : 0 ≤ increment) (nonneg : 0 ≤ t.heapPages)
    (moved : moveBreak increment t mm = (result, t', mm'))
    (noFault : mm'.fault = false) :
    (result = int32 (heapStart + t.heapSize) ∧
        t' = { t with
          heapSize := grownSize increment t
          heapPages := t.heapPages + newPages increment t } ∧
        Memory.Maps t.dirPagesBaseAddr (heapEnd t) (newPages increment t) mm
          mm') ∨
      ∃ k mm₁, k < newPages increment t ∧ mm₁.freeFrames = 0 ∧
        Memory.Maps t.dirPagesBaseAddr (heapEnd t) k mm mm₁ ∧
        result = -enomem ∧
        t' = { t with heapSize := int32 (grownSize increment t - increment) } ∧
        mm' = (releasePages k { t with
          heapSize := grownSize increment t
          heapPages := t.heapPages + k } mm₁).2 := by
  unfold moveBreak at moved
  dsimp only at moved
  by_cases zero : increment = 0
  · rw [if_pos zero] at moved
    cases moved
    have noPages : newPages increment t = 0 := by simp [newPages, zero]
    rw [noPages]
    refine Or.inl ⟨rfl, ?_, .done⟩
    simp [grownSize, zero]
  · have positive : 0 < increment := by omega
    have size : grownSize increment t = int32 (t.heapSize + increment) :=
      if_neg zero
    rw [if_neg zero, if_pos positive, ← size] at moved
    by_cases fits : int32 (t.heapSize.tmod pageSize + increment) < pageSize
    · rw [if_pos fits] at moved
      cases moved
      have noPages : newPages increment t = 0 :=
        if_neg fun asks => asks.2 fits
      rw [noPages]
      refine Or.inl ⟨rfl, ?_, .done⟩
      simp
    · have pages : rounds (int32 ((grownSize increment t).tdiv pageSize -
          t.heapPages)) = newPages increment t :=
        (if_pos ⟨positive, fits⟩).symm
      rw [if_neg fits, pages] at moved
      have loopNoFault : (growHeap (newPages increment t) 0
          { t with heapSize := grownSize increment t } mm).2.2.fault = false := by
        split at moved
        · next result =>
            cases moved
            rw [result]
            exact noFault
        · next result =>
            cases moved
            rw [result]
            exact noFault
      obtain ⟨_, outcome⟩ := growHeap_cases (newPages increment t) 0
        { t with heapSize := grownSize increment t } mm nonneg loopNoFault
      rcases outcome with ⟨mm₁, finished, maps⟩ |
        ⟨k, mm₁, short, empty, maps, stopped⟩
      · rw [finished] at moved
        cases moved
        exact Or.inl ⟨rfl, rfl, maps⟩
      · rw [stopped] at moved loopNoFault
        have fields := (releasePages_spec (0 + k) _ _ loopNoFault).2.1
        rw [Nat.zero_add] at moved fields
        cases moved
        refine Or.inr ⟨k, mm₁, short, empty, maps, rfl, ?_, rfl⟩
        rw [fields]
        simp

/-- The shrinking branch. -/
theorem moveBreak_shrinks (t : TaskStruct) (mm : Memory)
    (shrinking : increment < 0) :
    let released := releasePages (pagesBack increment t)
      { t with heapSize := shrunkSize increment t } mm
    moveBreak increment t mm =
      (int32 (heapStart + released.1.heapSize), released) := by
  have pages : rounds (int32 (t.heapPages -
      ((shrunkSize increment t).tdiv pageSize + 1))) = pagesBack increment t :=
    (if_pos shrinking).symm
  unfold moveBreak
  dsimp only
  rw [if_neg (by omega), if_neg (by omega), ← shrunkSize, pages]

theorem moveBreak_shrink {result : Int} {t' : TaskStruct} {mm' : Memory}
    (shrinking : increment < 0)
    (moved : moveBreak increment t mm = (result, t', mm'))
    (noFault : mm'.fault = false) :
    result = int32 (heapStart + shrunkSize increment t) ∧
      t' = { t with
        heapSize := shrunkSize increment t
        heapPages := t.heapPages - pagesBack increment t } ∧
      mm' = (releasePages (pagesBack increment t)
        { t with heapSize := shrunkSize increment t } mm).2 := by
  rw [moveBreak_shrinks t mm shrinking] at moved
  obtain ⟨rfl, released⟩ := Prod.mk.inj moved
  have memory : (releasePages (pagesBack increment t)
      { t with heapSize := shrunkSize increment t } mm).2 = mm' := by
    rw [released]
  rw [← memory] at noFault
  have fields := (releasePages_spec _ _ _ noFault).2.1
  rw [released] at fields
  change t' = _ at fields
  rw [released, fields]
  exact ⟨rfl, rfl, rfl⟩

theorem sysSbrk_refused (increment : Int32) (missing : t.heap = 0)
    (refused : increment.toInt < 0 ∨ mm.freeFrames = 0) :
    sysSbrk increment t mm = (-enomem, t, mm) := by
  unfold sysSbrk
  rw [if_pos missing]
  split_ifs with negative
  · rfl
  · have none := Memory.allocFrame_none_iff.mpr (refused.resolve_left negative)
    rw [none]

/-- A call that is not refused moves the break of the heap, which exists by
then. -/
theorem sysSbrk_moves (increment : Int32)
    (accepted : ¬ (t.heap = 0 ∧ (increment.toInt < 0 ∨ mm.freeFrames = 0))) :
    sysSbrk increment t mm =
      moveBreak increment.toInt (openHeap t mm).1 (openHeap t mm).2 := by
  unfold sysSbrk openHeap
  by_cases missing : t.heap = 0
  · rw [if_pos missing, if_pos missing,
      if_neg fun negative => accepted ⟨missing, Or.inl negative⟩]
    cases found : mm.allocFrame with
    | none =>
        have none := Memory.allocFrame_none_iff.mp found
        exact absurd ⟨missing, Or.inr none⟩ accepted
    | some reserved => rfl
  · rw [if_neg missing, if_neg missing]

/-- A growing call ends when all free frames fit in the table behind the
heap. -/
theorem moveBreak_noFault (growing : 0 ≤ increment) (nonneg : 0 ≤ t.heapPages)
    (room : heapInitPage + t.heapPages + mm.freeFrames < totalPages)
    (noFault : mm.fault = false) :
    (moveBreak increment t mm).2.2.fault = false := by
  unfold moveBreak
  dsimp only
  split_ifs
  · exact noFault
  · exact noFault
  · have loop := growHeap_noFault
      (rounds (int32 ((int32 (t.heapSize + increment)).tdiv pageSize -
        t.heapPages))) 0 { t with heapSize := int32 (t.heapSize + increment) } mm
      nonneg room noFault
    split
    · next result =>
        rw [result] at loop
        exact loop
    · next result =>
        rw [result] at loop
        exact loop
  all_goals omega

/-- The inversion of one call. -/
theorem sysSbrk_effect (increment : Int32) (t : TaskStruct) (mm : Memory)
    (nonneg : 0 ≤ t.heapPages)
    (noFault : (sysSbrk increment t mm).2.2.fault = false) :
    SbrkEffect increment.toInt t mm (sysSbrk increment t mm).1
      (sysSbrk increment t mm).2.1 (sysSbrk increment t mm).2.2 := by
  have moves : ∀ {t₁ mm₁ result t' mm'}, openHeap t mm = (t₁, mm₁) →
      (increment.toInt < 0 → t.heap ≠ 0) →
      moveBreak increment.toInt t₁ mm₁ = (result, t', mm') →
      mm'.fault = false →
      SbrkEffect increment.toInt t mm result t' mm' := by
    intro t₁ mm₁ result t' mm' opened exists_ moved noFault
    obtain ⟨openNonneg, sameDir⟩ := openHeap_pcb opened nonneg
    by_cases shrinking : increment.toInt < 0
    · have heap := exists_ shrinking
      have unopened : openHeap t mm = (t, mm) := if_neg heap
      rw [unopened] at opened
      cases opened
      obtain ⟨rfl, rfl, rfl⟩ := moveBreak_shrink shrinking moved noFault
      exact .shrunk shrinking heap rfl
    · rcases moveBreak_grow (by omega) openNonneg moved noFault with
        ⟨rfl, rfl, maps⟩ | ⟨k, mm₂, short, empty, maps, rfl, rfl, rfl⟩
      · exact .grown (by omega) opened (sameDir ▸ maps)
      · exact .short opened (sameDir ▸ maps) empty short rfl
  by_cases refused : t.heap = 0 ∧ (increment.toInt < 0 ∨ mm.freeFrames = 0)
  · rw [sysSbrk_refused increment refused.1 refused.2]
    exact .refused refused.1 refused.2
  · rw [sysSbrk_moves increment refused] at noFault ⊢
    exact moves rfl (fun shrinking missing => refused ⟨missing, Or.inl shrinking⟩)
      rfl noFault

/-- The missing heap gets its first page, or nothing happens. -/
theorem openHeap_cases (t : TaskStruct) (mm : Memory) :
    (openHeap t mm = (t, mm) ∧ (t.heap ≠ 0 ∨ mm.freeFrames = 0)) ∨
      (t.heap = 0 ∧ ∃ mm₁, openHeap t mm =
          ({ t with heap := heapStart, heapPages := 1 }, mm₁) ∧
        Memory.Maps t.dirPagesBaseAddr heapInitPage 1 mm mm₁) := by
  unfold openHeap
  by_cases missing : t.heap = 0
  · rw [if_pos missing]
    cases found : mm.allocFrame with
    | none => exact Or.inl ⟨rfl, Or.inr (Memory.allocFrame_none_iff.mp found)⟩
    | some reserved =>
        exact Or.inr ⟨missing, _, rfl, .next (by decide) found .done⟩
  · rw [if_neg missing]
    exact Or.inl ⟨rfl, Or.inl missing⟩

/-- A heap for whose first page there is a frame exists afterwards. -/
theorem openHeap_made (some_ : ¬ (t.heap = 0 ∧ mm.freeFrames = 0)) :
    (openHeap t mm).1.heap ≠ 0 := by
  rcases openHeap_cases t mm with ⟨same, cause⟩ | ⟨_, mm₁, first, _⟩
  · rw [same]
    exact fun missing =>
      some_ ⟨missing, cause.resolve_left fun made => made missing⟩
  · rw [first]
    have made : (heapStart : Int) ≠ 0 := by decide
    exact made

theorem sysSbrk_noFault (increment : Int32) (growing : 0 ≤ increment.toInt)
    (nonneg : 0 ≤ t.heapPages)
    (room : heapInitPage + (openHeap t mm).1.heapPages +
      (openHeap t mm).2.freeFrames < totalPages)
    (noFault : mm.fault = false) :
    (sysSbrk increment t mm).2.2.fault = false := by
  by_cases refused : t.heap = 0 ∧ (increment.toInt < 0 ∨ mm.freeFrames = 0)
  · rw [sysSbrk_refused increment refused.1 refused.2]
    exact noFault
  · rw [sysSbrk_moves increment refused]
    refine moveBreak_noFault growing (openHeap_nonneg mm nonneg) room ?_
    rcases openHeap_cases t mm with ⟨same, _⟩ | ⟨_, mm₁, first, maps⟩
    · rw [same]
      exact noFault
    · rw [first]
      exact maps.fault.trans noFault

end Zeos
