import Zeos.Space.Backing
import Zeos.Space.Rollback

/-!
# The sums and the page counts of `sys_sbrk`

The break moves by the increment as long as the new break is a C `int`.  The
loops over pages are the ones that were meant as long as their count `n` is not
negative: in the growing branch when the break does not run over the largest
`int`, in the shrinking branch when the new break is in a page that is mapped.
-/

namespace Zeos

variable {t t' t₁ : TaskStruct} {mm mm' mm₁ mm₂ : Memory} {count : Nat}
  {increment result : Int}

/-! ## The break -/

/-- The exact values of the sums of sizes and addresses that are formed once
the heap exists. -/
def sums (increment : Int) (t : TaskStruct) : List Int :=
  if increment = 0 then
    [heapStart + t.heapSize]
  else if increment > 0 then
    [heapStart + t.heapSize, t.heapSize.tmod pageSize + increment,
      t.heapSize + increment]
  else
    [heapStart + t.heapSize, t.heapSize + increment,
      (shrunkSize increment t).tdiv pageSize + 1,
      heapStart + shrunkSize increment t]

/-- The sums of a whole call. -/
def callSums (increment : Int) (t : TaskStruct) (mm : Memory) : List Int :=
  if t.heap = 0 ∧ (increment < 0 ∨ mm.freeFrames = 0) then []
  else sums increment (openHeap t mm).1

/-- No sum overflows, the break is not below the heap, and unless the call fails
it moves by the increment, but not below the heap. -/
structure MovesBreak (increment : Int) (t : TaskStruct) (mm : Memory)
    (result : Int) (t' : TaskStruct) : Prop where
  sums : ∀ sum ∈ callSums increment t mm, -2 ^ 31 ≤ sum ∧ sum < 2 ^ 31
  nonneg : 0 ≤ t'.heapSize
  exactly : result ≠ -enomem → t'.heapSize = max 0 (t.heapSize + increment)

/-- The new break is a C `int`. -/
def BreakFits (increment : Int) (t : TaskStruct) : Prop :=
  t.heapSize + increment < 2 ^ 31

instance (increment : Int) (t : TaskStruct) : Decidable (BreakFits increment t) :=
  inferInstanceAs (Decidable (_ < _))

/-- What calls whose breaks fit keep: every full page of the heap is counted,
and the pages that are counted fit in the table. -/
structure PagesCounted (t : TaskStruct) : Prop where
  size : 0 ≤ t.heapSize
  pages : t.heapSize / pageSize ≤ t.heapPages
  inTable : heapInitPage + t.heapPages ≤ totalPages
  missing : t.heap = 0 → t.heapSize = 0 ∧ t.heapPages = 0

namespace PagesCounted

theorem nonneg (counted : PagesCounted t) : 0 ≤ t.heapPages :=
  le_trans (Int.ediv_nonneg counted.size (by decide)) counted.pages

/-- The break is far from the largest `int`. -/
theorem small (counted : PagesCounted t) : t.heapSize < 2 ^ 22 := by
  have pages := counted.pages
  have inTable := counted.inTable
  simp only [pageSize, heapInitPage, pagLogInitData, pagLogInitCode, numPagCode,
    numPagData, totalPages, Nat.cast_ofNat] at pages inTable
  omega

theorem sized (counted : PagesCounted t) : int32 t.heapSize = t.heapSize := by
  have size := counted.size
  have small := counted.small
  exact int32_of_range (by omega) (by omega)

theorem opened (counted : PagesCounted t) (mm : Memory) :
    PagesCounted (openHeap t mm).1 ∧ (openHeap t mm).1.heapSize = t.heapSize := by
  rcases openHeap_cases t mm with ⟨same, _⟩ | ⟨missing, mm₁, first, _⟩
  · rw [same]
    exact ⟨counted, rfl⟩
  · rw [first]
    obtain ⟨size, _⟩ := counted.missing missing
    have made : (heapStart : Int) ≠ 0 := by decide
    have inTable : (heapInitPage : Int) + 1 ≤ totalPages := by decide
    refine ⟨⟨counted.size, ?_, inTable, fun absent => absurd absent made⟩, rfl⟩
    simp [size]

/-- The pages of a growing call are those of the new break. -/
theorem grown (counted : PagesCounted t) (growing : 0 ≤ increment)
    (fits : BreakFits increment t)
    (few : heapInitPage + (t.heapPages + newPages increment t) ≤ totalPages) :
    grownSize increment t = t.heapSize + increment ∧
      (t.heapSize + increment) / pageSize ≤
        t.heapPages + newPages increment t := by
  have size := counted.size
  have pages := counted.pages
  have nonneg := counted.nonneg
  unfold BreakFits at fits
  simp only [pageSize, heapInitPage, pagLogInitData, pagLogInitCode, numPagCode,
    numPagData, totalPages, Nat.cast_ofNat] at pages few ⊢
  by_cases zero : increment = 0
  · subst zero
    exact ⟨by simp [grownSize], by omega⟩
  · obtain ⟨sum, count⟩ := newPages_of_fit size (by omega) fits
    refine ⟨sum, ?_⟩
    rw [count] at few ⊢
    by_cases inPage : t.heapSize % pageSize + increment < pageSize
    · rw [if_pos inPage] at few ⊢
      simp only [pageSize, Nat.cast_ofNat] at inPage
      omega
    · rw [if_neg inPage] at few ⊢
      simp only [pageSize, Nat.cast_ofNat] at few ⊢
      rw [int32_of_range (by omega) (by omega)] at few ⊢
      unfold rounds at few ⊢
      omega

theorem shrunkSize_eq (counted : PagesCounted t) (shrinking : increment < 0)
    (lower : -2 ^ 31 ≤ increment) :
    shrunkSize increment t = max 0 (t.heapSize + increment) := by
  have size := counted.size
  have small := counted.small
  unfold shrunkSize
  rw [int32_of_range (by omega) (by omega)]
  split_ifs <;> omega

end PagesCounted

theorem counted_effect (effect : SbrkEffect increment t mm result t' mm')
    (counted : PagesCounted t) (lower : -2 ^ 31 ≤ increment)
    (fits : BreakFits increment t)
    (accepted : ¬ (t.heap = 0 ∧ (increment < 0 ∨ mm.freeFrames = 0)))
    (noFault : mm'.fault = false) :
    PagesCounted t' ∧
      (result ≠ -enomem → t'.heapSize = max 0 (t.heapSize + increment)) := by
  cases effect with
  | refused missing cause => exact absurd ⟨missing, cause⟩ accepted
  | @grown t₁ mm₁ _ growing opened maps =>
      obtain ⟨open_, size⟩ := counted.opened mm
      rw [opened] at open_ size
      dsimp only at open_ size
      have ending := heapEnd_eq open_.nonneg
      have inTable := inTable_of_maps maps (by have bound := open_.inTable; omega)
      have fitsOpen : BreakFits increment t₁ := by
        unfold BreakFits at fits ⊢
        omega
      have few : heapInitPage + (t₁.heapPages + newPages increment t₁) ≤
          totalPages := by omega
      obtain ⟨sum, pages⟩ := open_.grown growing fitsOpen few
      have sizeNonneg := open_.size
      have made : t₁.heap ≠ 0 := by
        have exists_ := openHeap_made fun none =>
          accepted ⟨none.1, Or.inr none.2⟩
        rwa [opened] at exists_
      refine ⟨⟨?_, ?_, few, fun absent => absurd absent made⟩, fun _ => ?_⟩
      · change 0 ≤ grownSize increment t₁
        omega
      · change grownSize increment t₁ / pageSize ≤ _
        rw [sum]
        exact pages
      · change grownSize increment t₁ = _
        rw [max_eq_right (by omega)]
        omega
  | @short t₁ mm₁ mm₂ _ k opened maps empty short released =>
      obtain ⟨open_, _⟩ := counted.opened mm
      rw [opened] at open_
      dsimp only at open_
      have positive := pos_of_newPages (Nat.ne_zero_of_lt short)
      refine ⟨?_, fun failed => absurd rfl failed⟩
      rw [grownSize_back positive open_.sized]
      exact open_
  | shrunk shrinking made released =>
      subst released
      have size := counted.shrunkSize_eq shrinking lower
      obtain ⟨_, _, bounds, _⟩ := releasePages_spec _ _ _ noFault
      have small := counted.small
      have inTable := counted.inTable
      refine ⟨⟨?_, ?_, ?_, fun absent => absurd absent made⟩, fun _ => size⟩
      · change 0 ≤ shrunkSize increment t
        omega
      · change shrunkSize increment t / pageSize ≤
          t.heapPages - pagesBack increment t
        have sizeRange : 0 ≤ shrunkSize increment t ∧
            shrunkSize increment t < 2 ^ 22 := by omega
        rcases pagesBack_cases counted.nonneg bounds with none | some_
        · rw [none]
          rw [pagesBack_eq shrinking] at none
          unfold rounds at none
          simp only [pageSize, heapInitPage, pagLogInitData, pagLogInitCode,
            numPagCode, numPagData, totalPages, Nat.cast_ofNat]
            at none inTable ⊢
          have nonneg := counted.nonneg
          rw [int32_of_range (by omega) (by omega)] at none
          omega
        · omega
      · change heapInitPage + (t.heapPages - pagesBack increment t) ≤ totalPages
        omega

/-- A call whose new break is a C `int` keeps the pages counted and moves the
break by the increment. -/
theorem sysSbrk_counted (increment : Int32) (counted : PagesCounted t)
    (fits : BreakFits increment.toInt t)
    (noFault : (sysSbrk increment t mm).2.2.fault = false) :
    PagesCounted (sysSbrk increment t mm).2.1 ∧
      ((sysSbrk increment t mm).1 ≠ -enomem →
        (sysSbrk increment t mm).2.1.heapSize =
          max 0 (t.heapSize + increment.toInt)) := by
  by_cases refused : t.heap = 0 ∧ (increment.toInt < 0 ∨ mm.freeFrames = 0)
  · rw [sysSbrk_refused increment refused.1 refused.2]
    exact ⟨counted, fun failed => absurd rfl failed⟩
  · exact counted_effect (sysSbrk_effect increment t mm counted.nonneg noFault)
      counted (Int32.le_toInt increment) fits refused noFault

/-- The sums of a call are C integers exactly if its new break is one. -/
theorem sums_fit_iff (increment : Int32) (counted : PagesCounted t) :
    (∀ sum ∈ callSums increment.toInt t mm, -2 ^ 31 ≤ sum ∧ sum < 2 ^ 31) ↔
      BreakFits increment.toInt t := by
  have lower : -2 ^ 31 ≤ increment.toInt := Int32.le_toInt increment
  have upper : increment.toInt < 2 ^ 31 := Int32.toInt_lt increment
  have nonneg := counted.size
  have small := counted.small
  generalize increment.toInt = increment at *
  unfold callSums BreakFits
  by_cases refused : t.heap = 0 ∧ (increment < 0 ∨ mm.freeFrames = 0)
  · have size := (counted.missing refused.1).1
    rw [if_pos refused]
    exact iff_of_true nofun (by omega)
  · obtain ⟨open_, size⟩ := counted.opened mm
    have start : (heapStart : Int) = 1163264 := by decide
    have page : (pageSize : Int) = 4096 := by decide
    rw [if_neg refused, ← size]
    rw [← size] at nonneg small
    unfold sums
    rw [start, page]
    split_ifs with zero positive
    · simp only [List.forall_mem_singleton]
      omega
    · simp only [List.forall_mem_cons, List.not_mem_nil, false_imp_iff,
        implies_true, and_true]
      rw [Int.tmod_eq_emod_of_nonneg nonneg]
      omega
    · simp only [List.forall_mem_cons, List.not_mem_nil, false_imp_iff,
        implies_true, and_true]
      rw [open_.shrunkSize_eq (by omega) lower,
        Int.tdiv_eq_ediv_of_nonneg (by omega)]
      omega

/-! ## The loops -/

/-- `n` in the growing branch. -/
def growCount (increment : Int) (t : TaskStruct) : Int :=
  int32 ((grownSize increment t).tdiv pageSize - t.heapPages)

/-- `n` in the shrinking branch. -/
def backCount (increment : Int) (t : TaskStruct) : Int :=
  int32 (t.heapPages - ((shrunkSize increment t).tdiv pageSize + 1))

/-- The growing branch needs new pages. -/
def AsksPages (increment : Int) (t : TaskStruct) : Prop :=
  0 < increment ∧ ¬ int32 (t.heapSize.tmod pageSize + increment) < pageSize

/-- The counts of the loops that the call enters are not negative and the loops
end within them; the heap has a page and ends in the table; the call changes no
other entry, and takes only frames of heap pages out of use. -/
structure StaysInside (increment : Int) (t : TaskStruct) (mm : Memory)
    (t' : TaskStruct) (mm' : Memory) : Prop where
  grows : ¬ (t.heap = 0 ∧ (increment < 0 ∨ mm.freeFrames = 0)) →
    AsksPages increment (openHeap t mm).1 →
      0 ≤ growCount increment (openHeap t mm).1 ∧
        (rounds (growCount increment (openHeap t mm).1) : Int) ≤
          growCount increment (openHeap t mm).1
  shrinks : t.heap ≠ 0 → increment < 0 →
    0 ≤ backCount increment t ∧
      (rounds (backCount increment t) : Int) ≤ backCount increment t
  ends : mm'.fault = false
  pages : t'.heap ≠ 0 →
    1 ≤ t'.heapPages ∧ heapInitPage + t'.heapPages ≤ totalPages
  entries : ∀ d page,
    (d = t.dirPagesBaseAddr → ¬ (heapInitPage ≤ page ∧ page < totalPages)) →
      mm'.pagusrTable d page = mm.pagusrTable d page
  frames : ∀ f, mm.physMem f = .usedFrame → mm'.physMem f ≠ .usedFrame →
    ∃ page : Nat, heapInitPage ≤ page ∧
      (page : Int) < heapInitPage + t.heapPages ∧
        (mm.pagusrTable t.dirPagesBaseAddr page).present = true ∧
          mm.getFrame t.dirPagesBaseAddr page = f

/-- The call is refused; or it shrinks the heap and the new break is in a heap
page; or it grows the heap, and if it needs new pages then the new break is
behind the heap pages and a C integer. -/
def LoopsFit (increment : Int) (t : TaskStruct) (mm : Memory) : Prop :=
  (t.heap = 0 ∧ (increment < 0 ∨ mm.freeFrames = 0)) ∨
    (increment < 0 ∧ shrunkSize increment t < t.heapPages * pageSize) ∨
    (0 ≤ increment ∧ (AsksPages increment (openHeap t mm).1 →
      (openHeap t mm).1.heapPages * pageSize ≤
          (openHeap t mm).1.heapSize + increment ∧
        (openHeap t mm).1.heapSize + increment < 2 ^ 31))

instance (increment : Int) (t : TaskStruct) (mm : Memory) :
    Decidable (LoopsFit increment t mm) := by
  unfold LoopsFit AsksPages
  infer_instance

/-- What calls whose loops fit keep: the heap pages and the free frames are not
more than `alloc_frame` has to give. -/
structure Contained (t : TaskStruct) (mm : Memory) : Prop where
  sized : int32 t.heapSize = t.heapSize
  nonneg : 0 ≤ t.heapPages
  missing : t.heap = 0 → t.heapPages = 0
  first : t.heap ≠ 0 → 1 ≤ t.heapPages
  room : t.heapPages + mm.freeFrames ≤ 384
  tidy : mm.Tidy
  noFault : mm.fault = false

theorem rounds_le_iff {n : Int} (lower : -2 ^ 31 ≤ n) (upper : n < 2 ^ 31) :
    0 ≤ n ↔ (rounds n : Int) ≤ n := by
  unfold rounds
  omega

theorem growCount_nonneg_iff (sized : int32 t.heapSize = t.heapSize)
    (positive : 0 < increment) (upper : increment < 2 ^ 31)
    (first : 1 ≤ t.heapPages) (few : t.heapPages ≤ 384) :
    0 ≤ growCount increment t ↔
      t.heapPages * pageSize ≤ t.heapSize + increment ∧
        t.heapSize + increment < 2 ^ 31 := by
  have range := int32_range t.heapSize
  rw [sized] at range
  have grown : grownSize increment t = int32 (t.heapSize + increment) :=
    if_neg (by omega)
  have bounds := int32_range (t.heapSize + increment)
  have congruent := Int.bmod_emod (x := t.heapSize + increment) (m := 2 ^ 32)
  change int32 (t.heapSize + increment) % _ = _ at congruent
  unfold growCount
  rw [grown]
  generalize int32 (t.heapSize + increment) = size at *
  simp only [pageSize, Nat.cast_ofNat] at congruent ⊢
  by_cases below : size < 0
  · have quotient : size.tdiv 4096 = -(-size / 4096) := by
      rw [← Int.tdiv_eq_ediv_of_nonneg (by omega), Int.neg_tdiv, Int.neg_neg]
    rw [quotient, int32_of_range (by omega) (by omega)]
    omega
  · rw [Int.tdiv_eq_ediv_of_nonneg (by omega), int32_of_range (by omega) (by omega)]
    omega

theorem backCount_nonneg_iff (nonneg : 0 ≤ t.heapPages) (few : t.heapPages ≤ 384) :
    0 ≤ backCount increment t ↔
      shrunkSize increment t < t.heapPages * pageSize := by
  have range := shrunkSize_range increment t
  unfold backCount
  rw [Int.tdiv_eq_ediv_of_nonneg range.1]
  simp only [pageSize, Nat.cast_ofNat]
  rw [int32_of_range (by omega) (by omega)]
  omega

/-- A round frees one frame at most. -/
theorem releasePages_freeFrames (count : Nat) (t : TaskStruct) (mm : Memory)
    (noFault : (releasePages count t mm).2.fault = false) :
    (releasePages count t mm).2.freeFrames ≤ mm.freeFrames + count := by
  induction count generalizing t mm with
  | zero => exact Nat.le_add_right _ _
  | succ count inductionHypothesis =>
      obtain ⟨_, _, round⟩ := releasePages_succ count t mm noFault
      rw [round] at noFault ⊢
      have rest := inductionHypothesis _ _ noFault
      have one := Memory.freeFrame_freeFrames mm (mm.getFrame t.dirPagesBaseAddr
        (heapInitPage + t.heapPages - 1 : Int).toNat)
      rw [Memory.delSsPag_freeFrames] at rest
      omega

namespace Contained

theorem opened (contained : Contained t mm)
    (some_ : ¬ (t.heap = 0 ∧ mm.freeFrames = 0)) :
    Contained (openHeap t mm).1 (openHeap t mm).2 ∧
      1 ≤ (openHeap t mm).1.heapPages := by
  rcases openHeap_cases t mm with ⟨same, cause⟩ | ⟨missing, mm₁, first, maps⟩
  · rw [same]
    refine ⟨contained, contained.first fun missing => ?_⟩
    exact some_ ⟨missing, cause.resolve_left fun made => made missing⟩
  · rw [first]
    have none := contained.missing missing
    have room := contained.room
    have counted := maps.freeFrames
    have made : (heapStart : Int) ≠ 0 := by decide
    refine ⟨⟨contained.sized, Int.one_nonneg, fun absent => absurd absent made,
      fun _ => le_refl _, ?_, (maps.edit contained.tidy).tidy contained.tidy,
      maps.fault.trans contained.noFault⟩, le_refl _⟩
    dsimp only
    omega

end Contained

/-- A call that maps new pages only. -/
theorem opened_outside (t : TaskStruct) (mm : Memory) :
    (∀ d page,
      (d = t.dirPagesBaseAddr → ¬ (heapInitPage ≤ page ∧ page < totalPages)) →
        (openHeap t mm).2.pagusrTable d page = mm.pagusrTable d page) ∧
      ∀ f, mm.holdings.used f → (openHeap t mm).2.holdings.used f := by
  rcases openHeap_cases t mm with ⟨same, _⟩ | ⟨_, mm₁, first, maps⟩
  · rw [same]
    exact ⟨fun _ _ _ => rfl, fun _ => id⟩
  · rw [first]
    have inTable : heapInitPage < totalPages := by decide
    refine ⟨fun d page outside => ?_, (maps.held (by decide)).2.2.1⟩
    exact maps.table d page fun same range => outside same (by omega)

/-- The pages behind the new break are given back. -/
theorem pagesBack_of_fit (contained : Contained t mm) (shrinking : increment < 0)
    (fit : shrunkSize increment t < t.heapPages * pageSize) :
    (pagesBack increment t : Int) =
      t.heapPages - (shrunkSize increment t / pageSize + 1) := by
  have room := contained.room
  have range := shrunkSize_range increment t
  rw [pagesBack_eq shrinking]
  simp only [pageSize, Nat.cast_ofNat] at fit ⊢
  rw [int32_of_range (by omega) (by omega)]
  unfold rounds
  omega

/-- A call that shrinks the heap to a break in a heap page. -/
theorem shrunk_inside (contained : Contained t mm) (made : t.heap ≠ 0)
    (shrinking : increment < 0)
    (fit : shrunkSize increment t < t.heapPages * pageSize)
    (noFault : (releasePages (pagesBack increment t)
      { t with heapSize := shrunkSize increment t } mm).2.fault = false) :
    StaysInside increment t mm
        { t with
          heapSize := shrunkSize increment t
          heapPages := t.heapPages - pagesBack increment t }
        (releasePages (pagesBack increment t)
          { t with heapSize := shrunkSize increment t } mm).2 ∧
      Contained
        { t with
          heapSize := shrunkSize increment t
          heapPages := t.heapPages - pagesBack increment t }
        (releasePages (pagesBack increment t)
          { t with heapSize := shrunkSize increment t } mm).2 := by
  have room := contained.room
  have first := contained.first made
  have range := shrunkSize_range increment t
  have counts := (backCount_nonneg_iff contained.nonneg (by omega)).mpr fit
  have back := pagesBack_of_fit contained shrinking fit
  have quotient := Int.ediv_nonneg range.1 (show (0 : Int) ≤ pageSize by decide)
  have table := releasePages_table _ _ mm noFault
  have given := (releasePages_holdings _ _ mm contained.tidy
    (show (pagesBack increment t : Int) ≤ _ by dsimp only; omega) noFault).2
  have edit := (releasePages_spec _ _ _ noFault).2.2.2
  have bounds := (releasePages_spec _ _ _ noFault).2.2.1
  dsimp only at table given bounds
  have inTable : (heapInitPage : Int) + 384 ≤ totalPages := by decide
  constructor
  · constructor
    · exact fun _ asks => by
        have positive := asks.1
        omega
    · intro _ _
      refine ⟨counts, (rounds_le_iff ?_ ?_).mp counts⟩
      · exact (int32_range _).1
      · exact (int32_range _).2
    · exact noFault
    · intro _
      dsimp only
      omega
    · intro d page outside
      rw [table]
      by_cases own : d = t.dirPagesBaseAddr
      · have notHeap := outside own
        rw [if_neg (by omega)]
      · rw [if_neg fun both => own both.1]
    · intro f used freed
      by_contra notHeap
      apply freed
      refine (given f).mpr ⟨used, fun p lower upper holds => notHeap ?_⟩
      have present : (mm.pagusrTable t.dirPagesBaseAddr p).present = true := by
        by_contra absent
        rw [Memory.held_eq_none mm _ (by simpa using absent)] at holds
        cases holds
      have high : pagLogInitData ≤ p := by
        simp only [heapInitPage] at lower
        omega
      rw [Memory.held_eq_some mm _ high present] at holds
      exact ⟨p, by omega, upper, present, Option.some.inj holds⟩
  · have frames := releasePages_freeFrames _ _ mm noFault
    constructor
    · exact int32_of_range (by dsimp only; omega) range.2
    · dsimp only
      omega
    · exact fun missing => absurd missing made
    · intro _
      dsimp only
      omega
    · dsimp only
      omega
    · exact edit.tidy contained.tidy
    · exact noFault

/-- A call that grows the heap, whether it finds all its frames or not. -/
theorem grown_inside (effect : SbrkEffect increment t mm result t' mm')
    (contained : Contained t mm) (growing : 0 ≤ increment)
    (upper : increment < 2 ^ 31)
    (accepted : ¬ (t.heap = 0 ∧ (increment < 0 ∨ mm.freeFrames = 0)))
    (fit : AsksPages increment (openHeap t mm).1 →
      (openHeap t mm).1.heapPages * pageSize ≤
          (openHeap t mm).1.heapSize + increment ∧
        (openHeap t mm).1.heapSize + increment < 2 ^ 31)
    (noFault : mm'.fault = false) :
    StaysInside increment t mm t' mm' ∧ Contained t' mm' := by
  have sized := effect.sized contained.sized
  obtain ⟨open_, first⟩ := contained.opened fun none =>
    accepted ⟨none.1, Or.inr none.2⟩
  obtain ⟨outside, stillUsed⟩ := opened_outside t mm
  have sameDir := openHeap_dir t mm
  have made := openHeap_made fun none => accepted ⟨none.1, Or.inr none.2⟩
  have room := open_.room
  have inTable : (heapInitPage : Int) + 384 < totalPages := by decide
  have grows : AsksPages increment (openHeap t mm).1 →
      0 ≤ growCount increment (openHeap t mm).1 ∧
        (rounds (growCount increment (openHeap t mm).1) : Int) ≤
          growCount increment (openHeap t mm).1 := by
    intro asks
    have counts := (growCount_nonneg_iff open_.sized asks.1 upper first
      (by omega)).mpr (fit asks)
    refine ⟨counts, (rounds_le_iff ?_ ?_).mp counts⟩
    · exact (int32_range _).1
    · exact (int32_range _).2
  cases effect with
  | refused missing cause => exact absurd ⟨missing, cause⟩ accepted
  | @grown t₁ mm₁ _ _ opened maps =>
      rw [opened] at open_ first outside stillUsed sameDir made room
      dsimp only at open_ first outside stillUsed sameDir made room
      rw [← sameDir] at maps
      have ending := heapEnd_eq open_.nonneg
      have counted := maps.freeFrames
      have high : pagLogInitData ≤ heapEnd t₁ :=
        le_trans (by decide) (le_heapEnd open_.nonneg)
      constructor
      · refine ⟨fun _ => grows, fun _ shrinking => by omega, noFault, ?_, ?_, ?_⟩
        · intro _
          dsimp only
          omega
        · intro d page notHeap
          rw [maps.table d page fun same range => ?_, outside d page notHeap]
          exact notHeap (same.trans sameDir) (by omega)
        · intro f used freed
          exact absurd ((maps.held high).2.2.1 f (stillUsed f used)) freed
      · refine ⟨sized, ?_, fun missing => absurd missing made, fun _ => ?_, ?_,
          (maps.edit open_.tidy).tidy open_.tidy, noFault⟩
        · dsimp only
          omega
        · dsimp only
          omega
        · dsimp only
          omega
  | @short t₁ mm₁ mm₂ _ k opened maps empty short released =>
      rw [opened] at open_ first outside stillUsed sameDir made room
      dsimp only at open_ first outside stillUsed sameDir made room
      rw [← sameDir] at maps
      subst released
      have ending := heapEnd_eq open_.nonneg
      have counted := maps.freeFrames
      have frames := physMem_ext (short_frames open_.nonneg open_.tidy maps noFault)
      have table := releasePages_table k _ mm₂ noFault
      have edit := (releasePages_spec _ _ _ noFault).2.2.2
      dsimp only at table
      constructor
      · refine ⟨fun _ => grows, fun _ shrinking => by omega, noFault, ?_, ?_, ?_⟩
        · intro _
          dsimp only
          omega
        · intro d page notHeap
          rw [table, if_neg fun both => ?_,
            maps.table d page fun same range => ?_, outside d page notHeap]
          · exact notHeap (same.trans sameDir) (by omega)
          · exact notHeap (both.1.trans sameDir) (by omega)
        · intro f used freed
          rw [frames] at freed
          exact absurd (stillUsed f used) freed
      · refine ⟨sized, open_.nonneg, fun missing => absurd missing made,
          fun _ => first, ?_, ?_, noFault⟩
        · have sameFree : (releasePages k { t₁ with
              heapSize := grownSize increment t₁
              heapPages := t₁.heapPages + k } mm₂).2.freeFrames =
                mm₁.freeFrames := by
            unfold Memory.freeFrames
            rw [frames]
          rw [sameFree]
          exact room
        · exact edit.tidy ((maps.edit open_.tidy).tidy open_.tidy)
  | shrunk shrinking _ _ => omega

theorem loops_inside_of_fit (increment : Int32) (contained : Contained t mm)
    (fit : LoopsFit increment.toInt t mm) :
    StaysInside increment.toInt t mm (sysSbrk increment t mm).2.1
        (sysSbrk increment t mm).2.2 ∧
      Contained (sysSbrk increment t mm).2.1 (sysSbrk increment t mm).2.2 := by
  have inTable : (heapInitPage : Int) + 384 < totalPages := by decide
  by_cases refused : t.heap = 0 ∧ (increment.toInt < 0 ∨ mm.freeFrames = 0)
  · rw [sysSbrk_refused increment refused.1 refused.2]
    refine ⟨⟨fun accepted => absurd refused accepted,
      fun made => absurd refused.1 made, contained.noFault,
      fun made => absurd refused.1 made, fun _ _ _ => rfl, ?_⟩, contained⟩
    exact fun f used freed => absurd used freed
  · rcases fit with gaveUp | ⟨shrinking, fit⟩ | ⟨growing, fit⟩
    · exact absurd gaveUp refused
    · have made : t.heap ≠ 0 := fun missing => refused ⟨missing, Or.inl shrinking⟩
      have unopened : openHeap t mm = (t, mm) := if_neg made
      have room := contained.room
      have back := pagesBack_of_fit contained shrinking fit
      have quotient := Int.ediv_nonneg (shrunkSize_range increment.toInt t).1
        (show (0 : Int) ≤ pageSize by decide)
      have noFault := releasePages_noFault (pagesBack increment.toInt t)
        { t with heapSize := shrunkSize increment.toInt t } mm
        (by dsimp only; omega) (by dsimp only; omega) contained.noFault
      have fields := (releasePages_spec _ _ _ noFault).2.1
      rw [sysSbrk_moves increment refused, unopened,
        moveBreak_shrinks t mm shrinking]
      dsimp only
      rw [fields]
      exact shrunk_inside contained made shrinking fit noFault
    · have room := (contained.opened fun none =>
        refused ⟨none.1, Or.inr none.2⟩).1.room
      have noFault := sysSbrk_noFault increment growing contained.nonneg
        (by omega) contained.noFault
      exact grown_inside
        (sysSbrk_effect increment t mm contained.nonneg noFault) contained growing
        (Int32.toInt_lt increment) refused fit noFault

/-- The counts of a call tell whether its loops fit. -/
theorem loopsFit_of_inside (increment : Int32) (contained : Contained t mm)
    {t' : TaskStruct} {mm' : Memory}
    (inside : StaysInside increment.toInt t mm t' mm') :
    LoopsFit increment.toInt t mm := by
  have lower : -2 ^ 31 ≤ increment.toInt := Int32.le_toInt increment
  have upper : increment.toInt < 2 ^ 31 := Int32.toInt_lt increment
  generalize increment.toInt = increment at *
  by_cases refused : t.heap = 0 ∧ (increment < 0 ∨ mm.freeFrames = 0)
  · exact Or.inl refused
  have room := contained.room
  by_cases shrinking : increment < 0
  · have made : t.heap ≠ 0 := fun missing => refused ⟨missing, Or.inl shrinking⟩
    refine Or.inr (Or.inl ⟨shrinking, ?_⟩)
    exact (backCount_nonneg_iff contained.nonneg (by omega)).mp
      (inside.shrinks made shrinking).1
  · refine Or.inr (Or.inr ⟨by omega, fun asks => ?_⟩)
    obtain ⟨open_, first⟩ := contained.opened fun none =>
      refused ⟨none.1, Or.inr none.2⟩
    have openRoom := open_.room
    exact (growCount_nonneg_iff open_.sized asks.1 upper first (by omega)).mp
      (inside.grows refused asks).1

namespace Caller

variable {c first last next : Caller}

/-- The new break of a call is a C `int`. -/
def BreakFits (c : Caller) : CallerEvent → Prop
  | .sbrk increment => Zeos.BreakFits increment.toInt c.task
  | .others _ => True

instance (c : Caller) : ∀ event, Decidable (c.BreakFits event)
  | .sbrk increment =>
      inferInstanceAs (Decidable (Zeos.BreakFits increment.toInt c.task))
  | .others _ => inferInstanceAs (Decidable True)

theorem sbrk_of_step {increment : Int32}
    (taken : first.step (.sbrk increment) = some last) :
    (sysSbrk increment first.task first.mm).2.2.fault = false ∧
      last.task = (sysSbrk increment first.task first.mm).2.1 ∧
      last.mm = (sysSbrk increment first.task first.mm).2.2 ∧
      last.result = (sysSbrk increment first.task first.mm).1 := by
  unfold step at taken
  dsimp only at taken
  split_ifs at taken with fault
  cases taken
  exact ⟨by simpa using fault, rfl, rfl, rfl⟩

theorem counted_of_run (run : Library.Reach step BreakFits first last)
    (counted : PagesCounted first.task) : PagesCounted last.task := by
  induction run with
  | start => exact counted
  | @step before after event _ fits taken inductionHypothesis =>
      cases event with
      | sbrk increment =>
          obtain ⟨noFault, task, _, _⟩ := sbrk_of_step taken
          rw [task]
          exact (sysSbrk_counted increment inductionHypothesis fits noFault).1
      | others mm =>
          unfold step at taken
          dsimp only at taken
          split_ifs at taken
          cases taken
          exact inductionHypothesis

/-- In a run of calls whose new breaks are C integers, a call moves the break by
its increment and forms no sum that overflows exactly if its new break is a C
integer. -/
theorem break_moves (run : Library.Reach step BreakFits first last)
    (empty : first.task.heapSize = 0)
    (noPages : first.task.heapPages = 0) {increment : Int32}
    (taken : last.step (.sbrk increment) = some next) :
    MovesBreak increment.toInt last.task last.mm next.result next.task ↔
      Zeos.BreakFits increment.toInt last.task := by
  have inTable : (heapInitPage : Int) + 0 ≤ totalPages := by decide
  have start : PagesCounted first.task := by
    refine ⟨empty.ge, ?_, noPages ▸ inTable, fun _ => ⟨empty, noPages⟩⟩
    rw [empty, noPages]
    decide
  have counted := counted_of_run run start
  obtain ⟨noFault, task, _, result⟩ := sbrk_of_step taken
  rw [task, result]
  constructor
  · exact fun moves => (sums_fit_iff increment counted).mp moves.sums
  · intro fits
    obtain ⟨kept, exactly⟩ := sysSbrk_counted increment counted fits noFault
    exact ⟨(sums_fit_iff increment counted).mpr fits, kept.size, exactly⟩

/-- Four calls, of which the last gives a part of a page back, and a fifth. -/
theorem break_moves_booted :
    let events : List CallerEvent := [.sbrk 100, .sbrk 3996, .sbrk 8192, .sbrk (-100)]
    ∃ last next, Library.runEvents (Library.guarded step BreakFits) (boot sampleImage) events =
        some last ∧ last.task.heapSize = 12188 ∧ last.step (.sbrk 300) = some next ∧
      MovesBreak 300 last.task last.mm next.result next.task := by
  intro events
  have start : (boot sampleImage).task.heapSize = 0 ∧
      (boot sampleImage).task.heapPages = 0 := by
    decide +kernel
  obtain ⟨last, finished, seen⟩ := (Option.any_eq_true _ _).mp
    (show (Library.runEvents (Library.guarded step BreakFits) (boot sampleImage) events).any
      (fun last => decide (last.task.heapSize = 12188 ∧
        (last.step (.sbrk 300)).isSome = true ∧
        Zeos.BreakFits (300 : Int32).toInt last.task)) = true by decide +kernel)
  obtain ⟨size, possible, fits⟩ := of_decide_eq_true seen
  obtain ⟨next, taken⟩ := Option.isSome_iff_exists.mp possible
  exact ⟨last, next, finished, size, taken,
    (break_moves (Library.Reach.of_guarded finished) start.1 start.2 taken).mpr fits⟩

/-- A break of one byte and the largest increment. -/
theorem break_overflows : ∃ last next,
    Library.Reach step (fun _ _ => True) (boot sampleImage) last ∧
      last.step (.sbrk 0x7FFFFFFF) = some next ∧ next.result ≠ -enomem ∧
        next.task.heapSize = -2 ^ 31 ∧
          ¬ MovesBreak 0x7FFFFFFF last.task last.mm next.result next.task := by
  let last := Library.lastState step (boot sampleImage) [.sbrk 1]
  have run : Library.Reach step (fun _ _ => True) (boot sampleImage) last :=
    Library.Reach.lastState fun _ _ _ => trivial
  have possible : (last.step (.sbrk 0x7FFFFFFF)).isSome = true := by
    decide +kernel
  obtain ⟨next, taken⟩ := Option.isSome_iff_exists.mp possible
  obtain ⟨_, task, _, result⟩ := sbrk_of_step taken
  have size : next.task.heapSize = -2 ^ 31 := by
    have value : (sysSbrk 0x7FFFFFFF last.task last.mm).2.1.heapSize = -2 ^ 31 := by
      decide +kernel
    rw [task, value]
  have succeeds : next.result ≠ -enomem := by
    have value : (sysSbrk 0x7FFFFFFF last.task last.mm).1 ≠ -enomem := by
      decide +kernel
    rw [result]
    exact value
  refine ⟨last, next, run, taken, succeeds, size, fun moves => ?_⟩
  have nonneg := moves.nonneg
  rw [size] at nonneg
  exact absurd nonneg (by decide)

/-- The calls of one process, each with loops that fit, and nothing else. -/
def LoopsFit (c : Caller) : CallerEvent → Prop
  | .sbrk increment => Zeos.LoopsFit increment.toInt c.task c.mm
  | .others _ => False

instance (c : Caller) : ∀ event, Decidable (c.LoopsFit event)
  | .sbrk increment =>
      inferInstanceAs (Decidable (Zeos.LoopsFit increment.toInt c.task c.mm))
  | .others _ => inferInstanceAs (Decidable False)

theorem contained_of_run (run : Library.Reach step LoopsFit first last)
    (contained : Contained first.task first.mm) :
    Contained last.task last.mm := by
  induction run with
  | start => exact contained
  | @step before after event _ fit taken inductionHypothesis =>
      cases event with
      | sbrk increment =>
          obtain ⟨_, task, mm, _⟩ := sbrk_of_step taken
          rw [task, mm]
          exact (loops_inside_of_fit increment inductionHypothesis fit).2
      | others mm => exact absurd fit id

/-- In a run of calls whose loops fit, the counts of a call are not negative, and
the call ends and stays inside the heap, exactly if its loops fit. -/
theorem loops_inside (run : Library.Reach step LoopsFit first last)
    (missing : first.task.heap = 0) (empty : first.task.heapSize = 0)
    (noPages : first.task.heapPages = 0) (tidy : first.mm.Tidy)
    (noFault : first.mm.fault = false) (increment : Int32) :
    StaysInside increment.toInt last.task last.mm
        (sysSbrk increment last.task last.mm).2.1
        (sysSbrk increment last.task last.mm).2.2 ↔
      Zeos.LoopsFit increment.toInt last.task last.mm := by
  have frames := freeFrames_le first.mm
  have start : Contained first.task first.mm := by
    refine ⟨?_, noPages.ge, fun _ => noPages, fun made => absurd missing made, ?_,
      tidy, noFault⟩
    · rw [empty]
      rfl
    · omega
  have contained := contained_of_run run start
  constructor
  · exact loopsFit_of_inside increment contained
  · exact fun fit => (loops_inside_of_fit increment contained fit).1

theorem boot_tidy (image : BootImage) : (boot image).mm.Tidy := by
  simp only [boot]
  exact (Kernel.boot_mapped image).tidy

theorem loops_inside_booted :
    let events : List CallerEvent := [.sbrk 5000, .sbrk (-4999), .sbrk 8192]
    ∃ last, Library.runEvents (Library.guarded step LoopsFit) (boot sampleImage) events =
        some last ∧
      StaysInside (-4000) last.task last.mm (sysSbrk (-4000) last.task last.mm).2.1
        (sysSbrk (-4000) last.task last.mm).2.2 := by
  intro events
  obtain ⟨last, finished, seen⟩ := (Option.any_eq_true _ _).mp
    (show (Library.runEvents (Library.guarded step LoopsFit) (boot sampleImage) events).any
      (fun last => decide (Zeos.LoopsFit (-4000 : Int32).toInt last.task last.mm)) = true by
        decide +kernel)
  have fit : Zeos.LoopsFit (-4000 : Int32).toInt last.task last.mm := of_decide_eq_true seen
  have start : (boot sampleImage).task.heap = 0 ∧
      (boot sampleImage).task.heapSize = 0 ∧
        (boot sampleImage).task.heapPages = 0 ∧
          (boot sampleImage).mm.fault = false := by
    decide +kernel
  exact ⟨last, finished, (loops_inside (Library.Reach.of_guarded finished) start.1 start.2.1
    start.2.2.1 (boot_tidy sampleImage) start.2.2.2 (-4000)).mpr fit⟩

/-- A break of one byte more than a page, and back by one byte: the loop is to
give back minus one page. -/
theorem loop_count_negative : ∃ last,
    Library.Reach step (fun _ _ => True) (boot sampleImage) last ∧
      backCount (-1) last.task = -1 ∧
        ¬ StaysInside (-1) last.task last.mm
          (sysSbrk (-1) last.task last.mm).2.1
          (sysSbrk (-1) last.task last.mm).2.2 := by
  let last := Library.lastState step (boot sampleImage) [.sbrk 4097]
  have run : Library.Reach step (fun _ _ => True) (boot sampleImage) last :=
    Library.Reach.lastState fun _ _ _ => trivial
  have count : backCount (-1) last.task = -1 ∧ last.task.heap ≠ 0 := by
    decide +kernel
  refine ⟨last, run, count.1, fun inside => ?_⟩
  have nonneg := (inside.shrinks count.2 (by decide)).1
  rw [count.1] at nonneg
  exact absurd nonneg (by decide)

end Caller

end Zeos
