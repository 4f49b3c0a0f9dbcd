import Zeos.Space.Boot
import Zeos.Space.Sharing

/-!
# The heap is backed up to the break

A process that is alone in its directory calls `sys_sbrk` again and again while
the rest of the system does what it likes to everything but its table.  The
heap pages are those below the break as long as no call grows the heap into a
page that it does not map, gives a page back, or runs out of frames on the way.
-/

namespace Zeos

/-- The bytes below the break are in mapped pages, the mapped heap pages are the
first `heapPages`, and they are at most one more than full ones. -/
structure Backed (t : TaskStruct) (mm : Memory) : Prop where
  bytes : ∀ b : Nat, (b : Int) < t.heapSize →
    (mm.translate t.dirPagesBaseAddr ((heapStart + b) / pageSize)).isSome
  pages : ∀ page, heapInitPage ≤ page → page < totalPages →
    ((mm.pagusrTable t.dirPagesBaseAddr page).present = true ↔
      (page : Int) < heapInitPage + t.heapPages)
  few : t.heapPages ≤ t.heapSize / pageSize + 1

/-- A heap that was never asked for, or one that is backed. -/
structure Heap (t : TaskStruct) (mm : Memory) : Prop extends Backed t mm where
  size : 0 ≤ t.heapSize
  inTable : heapInitPage + t.heapPages ≤ totalPages
  missing : t.heap = 0 → t.heapSize = 0 ∧ t.heapPages = 0
  first : t.heap ≠ 0 → 1 ≤ t.heapPages

/-! ## One call -/

/-- A growing call stays in the pages that are mapped, finds no frame for the
first page it asks for, or ends at the end of a page that it gets. -/
def GrowsExactly (increment : Int) (t : TaskStruct) (mm : Memory) : Prop :=
  t.heapSize + increment ≤ t.heapPages * pageSize ∨
    (newPages increment t ≠ 0 ∧ mm.freeFrames = 0) ∨
    ((t.heapSize + increment) % pageSize = 0 ∧
      t.heapSize + increment ≤ (t.heapPages + mm.freeFrames) * pageSize)

/-- A shrinking call gives no page back, and a growing one leaves no page of
the new heap out. -/
def MovesExactly (increment : Int) (t : TaskStruct) (mm : Memory) : Prop :=
  (increment < 0 ∧ (t.heap = 0 ∨ pagesBack increment t = 0)) ∨
    (0 ≤ increment ∧ ((t.heap = 0 ∧ mm.freeFrames = 0) ∨
      GrowsExactly increment (openHeap t mm).1 (openHeap t mm).2))

instance (increment : Int) (t : TaskStruct) (mm : Memory) :
    Decidable (MovesExactly increment t mm) := by
  unfold MovesExactly GrowsExactly
  infer_instance

variable {t t₁ : TaskStruct} {mm mm₁ mm₂ : Memory} {count : Nat}
  {increment result : Int}

theorem Heap.nonneg (heap : Heap t mm) : 0 ≤ t.heapPages := by
  by_cases missing : t.heap = 0
  · exact (heap.missing missing).2.ge
  · exact le_trans (by decide) (heap.first missing)

/-- The bytes below the break need no more pages than there are. -/
theorem Heap.fits (heap : Heap t mm) : t.heapSize ≤ t.heapPages * pageSize := by
  by_contra more
  have nonneg := heap.nonneg
  have inTable := heap.inTable
  have page : (heapStart + (t.heapPages * pageSize).toNat) / pageSize =
      heapEnd t := by
    unfold heapEnd
    simp only [heapStart, heapInitPage, pagLogInitData, pagLogInitCode, numPagCode,
      numPagData, pageSize] at more inTable ⊢
    omega
  have below : ((t.heapPages * pageSize).toNat : Int) < t.heapSize := by
    simp only [pageSize] at more ⊢
    omega
  have mapped := heap.bytes _ below
  rw [page] at mapped
  unfold Memory.translate at mapped
  split_ifs at mapped with present
  · have below := (heap.pages (heapEnd t) (by unfold heapEnd; omega) present.1).mp
      present.2
    unfold heapEnd at below
    omega
  · cases mapped

theorem backed_of_pages (size : t.heapSize ≤ t.heapPages * pageSize)
    (inTable : heapInitPage + t.heapPages ≤ totalPages)
    (pages : ∀ page, heapInitPage ≤ page → page < totalPages →
      ((mm.pagusrTable t.dirPagesBaseAddr page).present = true ↔
        (page : Int) < heapInitPage + t.heapPages))
    (few : t.heapPages ≤ t.heapSize / pageSize + 1) : Backed t mm := by
  refine ⟨fun b below => ?_, pages, few⟩
  have page : heapInitPage ≤ (heapStart + b) / pageSize ∧
      ((heapStart + b) / pageSize : Nat) < heapInitPage + t.heapPages := by
    simp only [heapStart, heapInitPage, pagLogInitData, pagLogInitCode, numPagCode,
      numPagData, pageSize, totalPages] at size inTable ⊢
    omega
  have inside : (heapStart + b) / pageSize < totalPages := by omega
  unfold Memory.translate
  rw [if_pos ⟨inside, (pages _ page.1 inside).mpr page.2⟩]
  rfl

theorem present_iff_held {dir : DirId} {page : Nat}
    (high : pagLogInitData ≤ page) :
    (mm.pagusrTable dir page).present = true ↔
      ∃ f, mm.holdings.held (dir, page) = some f := by
  cases present : (mm.pagusrTable dir page).present with
  | true => exact iff_of_true rfl ⟨_, mm.held_eq_some dir high present⟩
  | false =>
      rw [mm.held_eq_none dir present]
      exact iff_of_false (by simp) nofun

/-- The pages of a run are mapped, and the others stay as they are. -/
theorem present_of_maps {dir : DirId} {first : Nat}
    (maps : Memory.Maps dir first count mm mm₁) (high : pagLogInitData ≤ first)
    (page : Nat) (heapPage : heapInitPage ≤ page) :
    (mm₁.pagusrTable dir page).present = true ↔
      (first ≤ page ∧ page < first + count) ∨
        (mm.pagusrTable dir page).present = true := by
  have highPage : pagLogInitData ≤ page := le_trans (by decide) heapPage
  obtain ⟨outside, inside, _, _⟩ := maps.held high
  rw [present_iff_held highPage, present_iff_held highPage]
  by_cases range : first ≤ page ∧ page < first + count
  · exact iff_of_true (inside page range) (Or.inl range)
  · rw [outside dir page fun _ => range]
    exact (or_iff_right range).symm

/-! ## Page counts -/

theorem freeFrames_le (mm : Memory) : mm.freeFrames ≤ 384 := by
  have length : Memory.frameScan.length = 384 := by
    simp [Memory.frameScan]
  rw [← length]
  exact List.countP_le_length

/-- The break and the number of new pages of a growing call for which there are
frames enough. -/
theorem newPages_eq (heap : Heap t mm) (made : t.heap ≠ 0)
    (positive : 0 < increment) {frames : Nat} (few : frames ≤ 384)
    (bound : t.heapSize + increment ≤ (t.heapPages + frames) * pageSize) :
    grownSize increment t = t.heapSize + increment ∧
      (newPages increment t : Int) =
        if t.heapSize + increment ≤ t.heapPages * pageSize then 0
        else (t.heapSize + increment) / pageSize - t.heapPages := by
  have fits := heap.fits
  have inTable := heap.inTable
  have fewPages := heap.few
  have size := heap.size
  have first := heap.first made
  simp only [pageSize, heapInitPage, pagLogInitData, pagLogInitCode, numPagCode,
    numPagData, totalPages, Nat.cast_ofNat] at fits inTable fewPages bound ⊢
  obtain ⟨grown, pages⟩ := newPages_of_fit size positive (by omega)
  refine ⟨grown, ?_⟩
  rw [pages]
  by_cases inPage : t.heapSize % pageSize + increment < pageSize
  · rw [if_pos inPage]
    simp only [pageSize, Nat.cast_ofNat] at inPage
    split_ifs <;> omega
  · rw [if_neg inPage]
    simp only [pageSize, Nat.cast_ofNat] at inPage ⊢
    rw [int32_of_range (by omega) (by omega)]
    unfold rounds
    split_ifs <;> omega

/-! ## The calls keep the heap -/

theorem inTable_of_maps {dir : DirId} {first : Nat}
    (maps : Memory.Maps dir first count mm mm₁) (before : first ≤ totalPages) :
    first + count ≤ totalPages := by
  induction maps with
  | done => exact before
  | next inTable _ _ inductionHypothesis =>
      have later := inductionHypothesis inTable
      omega

/-- New pages behind the heap are heap pages. -/
theorem pages_grown (heap : Heap t mm)
    (maps : Memory.Maps t.dirPagesBaseAddr (heapEnd t) count mm mm₁) (page : Nat)
    (first : heapInitPage ≤ page) (inTable : page < totalPages) :
    (mm₁.pagusrTable t.dirPagesBaseAddr page).present = true ↔
      (page : Int) < heapInitPage + (t.heapPages + count) := by
  have ending := heapEnd_eq heap.nonneg
  have high : pagLogInitData ≤ heapEnd t := by
    have nonneg := heap.nonneg
    simp only [heapInitPage] at ending
    omega
  rw [present_of_maps maps high page first, heap.pages page first inTable]
  omega

theorem grown_heap (heap : Heap t mm) (made : t.heap ≠ 0)
    (growing : 0 ≤ increment) (exactly : GrowsExactly increment t mm)
    (maps : Memory.Maps t.dirPagesBaseAddr (heapEnd t) (newPages increment t) mm
      mm₁) :
    Heap { t with
      heapSize := grownSize increment t
      heapPages := t.heapPages + newPages increment t } mm₁ := by
  have size := heap.size
  have first := heap.first made
  have few := heap.few
  have fits := heap.fits
  have ending := heapEnd_eq heap.nonneg
  have inTable := inTable_of_maps maps (by have bound := heap.inTable; omega)
  have pages := pages_grown heap maps
  by_cases zero : increment = 0
  · subst zero
    have same : newPages 0 t = 0 := by simp [newPages]
    have sameSize : grownSize 0 t = t.heapSize := if_pos rfl
    rw [same] at maps ⊢
    cases maps
    rw [sameSize]
    simpa using heap
  · have frames := freeFrames_le mm
    have enough : newPages increment t ≤ mm.freeFrames := by
      have counted := maps.freeFrames
      omega
    obtain ⟨bound, ends⟩ : t.heapSize + increment ≤
          (t.heapPages + mm.freeFrames) * pageSize ∧
        (t.heapSize + increment ≤ t.heapPages * pageSize ∨
          (t.heapSize + increment) % pageSize = 0) := by
      rcases exactly with inPages | ⟨asks, none⟩ | ⟨aligned, bound⟩
      · refine ⟨?_, Or.inl inPages⟩
        simp only [pageSize] at inPages ⊢
        omega
      · omega
      · exact ⟨bound, Or.inr aligned⟩
    obtain ⟨grown, counted⟩ := newPages_eq heap made (by omega) frames bound
    have newFits : grownSize increment t ≤
          (t.heapPages + newPages increment t) * pageSize ∧
        t.heapPages + newPages increment t ≤
          grownSize increment t / pageSize + 1 := by
      rw [grown, counted]
      simp only [pageSize, Nat.cast_ofNat] at bound ends few fits ⊢
      split_ifs <;> omega
    have tableBound : heapInitPage + (t.heapPages + newPages increment t) ≤
        totalPages := by omega
    refine ⟨backed_of_pages newFits.1 tableBound pages newFits.2, ?_, tableBound,
      fun missing => absurd missing made, fun _ => ?_⟩
    · change 0 ≤ grownSize increment t
      omega
    · change 1 ≤ t.heapPages + newPages increment t
      omega

/-- The first page of the heap. -/
theorem opened_heap (heap : Heap t mm) (missing : t.heap = 0)
    (maps : Memory.Maps t.dirPagesBaseAddr heapInitPage 1 mm mm₁) :
    Heap { t with heap := heapStart, heapPages := 1 } mm₁ := by
  obtain ⟨size, none⟩ := heap.missing missing
  have ending : heapEnd t = heapInitPage := by simp [heapEnd, none]
  have pages := pages_grown heap (ending ▸ maps)
  rw [none, Int.zero_add] at pages
  have inTable : (heapInitPage : Int) + 1 ≤ totalPages := by decide
  have made : (heapStart : Int) ≠ 0 := by decide
  refine ⟨backed_of_pages ?_ inTable pages ?_, heap.size, inTable,
    fun absent => absurd absent made, fun _ => le_refl _⟩
  · simp [size]
  · simp [size]

theorem shrunk_heap (heap : Heap t mm) (made : t.heap ≠ 0)
    (shrinking : increment < 0) (lower : -2 ^ 31 ≤ increment)
    (none : pagesBack increment t = 0) :
    Heap { t with heapSize := shrunkSize increment t } mm := by
  have size := heap.size
  have fits := heap.fits
  have first := heap.first made
  have inTable := heap.inTable
  simp only [pageSize, heapInitPage, pagLogInitData, pagLogInitCode, numPagCode,
    numPagData, totalPages, Nat.cast_ofNat] at fits inTable
  have smaller : 0 ≤ shrunkSize increment t ∧
      shrunkSize increment t ≤ t.heapSize := by
    unfold shrunkSize
    rw [int32_of_range (by omega) (by omega)]
    split_ifs <;> omega
  have counted : t.heapPages = shrunkSize increment t / pageSize + 1 := by
    rw [pagesBack_eq shrinking] at none
    simp only [pageSize, Nat.cast_ofNat] at none ⊢
    rw [int32_of_range (by omega) (by omega)] at none
    unfold rounds at none
    omega
  have newFits : shrunkSize increment t ≤ t.heapPages * pageSize := by
    simp only [pageSize, Nat.cast_ofNat]
    omega
  exact ⟨backed_of_pages newFits heap.inTable heap.pages counted.le, smaller.1,
    heap.inTable, fun missing => absurd missing made, heap.first⟩

theorem Heap.sized (heap : Heap t mm) : int32 t.heapSize = t.heapSize := by
  have size := heap.size
  have fits := heap.fits
  have inTable := heap.inTable
  simp only [pageSize, heapInitPage, pagLogInitData, pagLogInitCode, numPagCode,
    numPagData, totalPages, Nat.cast_ofNat] at fits inTable
  exact int32_of_range (by omega) (by omega)

/-- A growing call that moves the break exactly does not run out of frames
after it got one. -/
theorem no_short_growth (heap : Heap t mm) (made : t.heap ≠ 0)
    (positive : 0 < increment) (exactly : GrowsExactly increment t mm)
    (taken : mm.freeFrames = mm₁.freeFrames + count) (empty : mm₁.freeFrames = 0)
    (short : count < newPages increment t) : count = 0 := by
  have frames := freeFrames_le mm
  have few := heap.few
  have fits := heap.fits
  simp only [pageSize, Nat.cast_ofNat] at few fits
  rcases exactly with inPages | ⟨_, none⟩ | ⟨_, bound⟩
  · have counted := (newPages_eq heap made positive (Nat.zero_le _)
      (by simpa using inPages)).2
    rw [if_pos inPages] at counted
    omega
  · omega
  · have counted := (newPages_eq heap made positive frames bound).2
    simp only [pageSize, Nat.cast_ofNat] at bound counted
    split_ifs at counted <;> omega

/-- A call that moves the break exactly keeps the heap backed. -/
theorem sysSbrk_heap (increment : Int32) (heap : Heap t mm)
    (exactly : MovesExactly increment.toInt t mm)
    (noFault : (sysSbrk increment t mm).2.2.fault = false) :
    Heap (sysSbrk increment t mm).2.1 (sysSbrk increment t mm).2.2 := by
  by_cases refused : t.heap = 0 ∧ (increment.toInt < 0 ∨ mm.freeFrames = 0)
  · rw [sysSbrk_refused increment refused.1 refused.2]
    exact heap
  have lower := increment.le_toInt
  have opens : Heap (openHeap t mm).1 (openHeap t mm).2 ∧
      (openHeap t mm).1.heap ≠ 0 := by
    refine ⟨?_, openHeap_made fun none => refused ⟨none.1, Or.inr none.2⟩⟩
    rcases openHeap_cases t mm with ⟨same, _⟩ | ⟨missing, mm₁, opened, maps⟩
    · rw [same]
      exact heap
    · rw [opened]
      exact opened_heap heap missing maps
  have grows : 0 ≤ increment.toInt →
      GrowsExactly increment.toInt (openHeap t mm).1 (openHeap t mm).2 := by
    intro growing
    rcases exactly with ⟨shrinking, _⟩ | ⟨_, none | grows⟩
    · omega
    · exact absurd ⟨none.1, Or.inr none.2⟩ refused
    · exact grows
  have effect := sysSbrk_effect increment t mm heap.nonneg noFault
  generalize (sysSbrk increment t mm).1 = result at effect
  generalize (sysSbrk increment t mm).2.1 = t' at effect ⊢
  generalize (sysSbrk increment t mm).2.2 = mm' at effect ⊢
  cases effect with
  | refused missing cause => exact absurd ⟨missing, cause⟩ refused
  | grown growing opened maps =>
      have exactlyGrown := grows growing
      rw [opened] at opens exactlyGrown
      have sameDir := openHeap_dir t mm
      rw [opened] at sameDir
      exact grown_heap opens.1 opens.2 growing exactlyGrown (sameDir ▸ maps)
  | @short t₁ mm₁ mm₂ _ k opened maps empty short released =>
      have positive := pos_of_newPages (Nat.ne_zero_of_lt short)
      have exactlyGrown := grows positive.le
      rw [opened] at opens exactlyGrown
      have none := no_short_growth opens.1 opens.2 positive exactlyGrown
        maps.freeFrames empty short
      subst none
      cases maps
      have sized : int32 t₁.heapSize = t₁.heapSize :=
        opens.1.sized
      rw [grownSize_back positive sized, ← released]
      exact opens.1
  | shrunk shrinking made released =>
      have none : pagesBack increment.toInt t = 0 := by
        rcases exactly with ⟨_, missing | none⟩ | ⟨growing, _⟩
        · exact absurd missing made
        · exact none
        · omega
      rw [none] at released
      rw [none, ← released]
      simpa [releasePages] using shrunk_heap heap made shrinking lower none

/-! ## Runs -/

/-- The PCB of a process that calls `sys_sbrk`, memory, and the result of the
last call. -/
structure Caller where
  task : TaskStruct
  mm : Memory
  result : Int

/-- A call, or anything that the rest of the system does meanwhile. -/
inductive CallerEvent where
  | sbrk (increment : Int32)
  | others (mm : Memory)

namespace Caller

variable {c first last : Caller}

/-- A run of calls ends at a memory exception.  Nobody else writes the heap
pages of the caller's table, since nobody shares its directory. -/
def step (c : Caller) : CallerEvent → Option Caller
  | .sbrk increment =>
      let (result, t, mm) := sysSbrk increment c.task c.mm
      if mm.fault then none else some ⟨t, mm, result⟩
  | .others mm =>
      if ∀ page < totalPages, heapInitPage ≤ page →
          (mm.pagusrTable c.task.dirPagesBaseAddr page).present =
            (c.mm.pagusrTable c.task.dirPagesBaseAddr page).present then
        some { c with mm := mm }
      else
        none

/-- The calls move the break exactly. -/
def Exactly (c : Caller) : CallerEvent → Prop
  | .sbrk increment => MovesExactly increment.toInt c.task c.mm
  | .others _ => True

instance (c : Caller) : ∀ event, Decidable (c.Exactly event)
  | .sbrk increment =>
      inferInstanceAs (Decidable (MovesExactly increment.toInt c.task c.mm))
  | .others _ => inferInstanceAs (Decidable True)

theorem heap_step {event : CallerEvent} (heap : Heap first.task first.mm)
    (exactly : first.Exactly event) (taken : first.step event = some last) :
    Heap last.task last.mm := by
  cases event with
  | sbrk increment =>
      unfold step at taken
      dsimp only at taken
      split_ifs at taken with fault
      cases taken
      exact sysSbrk_heap increment heap exactly (by simpa using fault)
  | others mm =>
      unfold step at taken
      dsimp only at taken
      split_ifs at taken with same
      cases taken
      refine ⟨backed_of_pages heap.fits heap.inTable ?_ heap.few, heap.size,
        heap.inTable, heap.missing, heap.first⟩
      intro page heapPage inTable
      dsimp only
      rw [same page inTable heapPage]
      exact heap.pages page heapPage inTable

/-- In a run of calls that move the break exactly the heap is backed up to the
break. -/
theorem heap_backed (run : Library.Reach step Exactly first last)
    (heap : Heap first.task first.mm) : Backed last.task last.mm := by
  have kept : Heap last.task last.mm := by
    induction run with
    | start => exact heap
    | step _ exactly taken inductionHypothesis =>
        exact heap_step inductionHypothesis exactly taken
  exact kept.toBacked

/-- The first process at boot. -/
def boot (image : BootImage) : Caller :=
  ⟨(Zeos.boot image).task 1, (Zeos.boot image).mm, 0⟩

/-- The first process begins without a heap. -/
theorem boot_heap (image : BootImage) :
    Heap (boot image).task (boot image).mm := by
  simp only [boot]
  have region := (Kernel.boot_space image).1 1
  have made : ((Zeos.boot image).task 1).heap = 0 := region.heap
  have size : ((Zeos.boot image).task 1).heapSize = 0 := region.heapSize
  have pages : ((Zeos.boot image).task 1).heapPages = 0 := region.heapPages
  have inTable :
      heapInitPage + ((Zeos.boot image).task 1).heapPages ≤ totalPages := by
    rw [pages]
    decide
  refine ⟨backed_of_pages ?_ inTable ?_ ?_, size.ge, inTable,
    fun _ => ⟨size, pages⟩, fun other => absurd made other⟩
  · rw [size, pages]
    decide
  · intro page heapPage _
    have absent : ¬ page < heapInitPage := by omega
    rw [Kernel.boot_dataEntry image _ (le_trans (by decide) heapPage), pages,
      if_neg fun both => absent both.2]
    exact iff_of_false Bool.false_ne_true (by omega)
  · rw [size, pages]
    decide

/-- The first process uses its first page, then two more, and gives a part of
the last one back. -/
theorem heap_backed_booted :
    let last := Library.lastState (Library.guarded step Exactly)
      (boot sampleImage) [.sbrk 100, .sbrk 3996, .sbrk 8192, .sbrk (-100)]
    Backed last.task last.mm ∧ last.task.heapSize = 12188 ∧
      last.task.heapPages = 3 := by
  intro last
  have run : Library.Reach step Exactly (boot sampleImage) last :=
    Library.Reach.guarded (Library.Reach.lastState fun _ _ _ => trivial)
  exact ⟨heap_backed run (boot_heap sampleImage), by decide +kernel,
    by decide +kernel⟩

/-- The break ends in a page that is not mapped. -/
theorem break_unbacked : ∃ c, Library.Reach step (fun _ _ => True)
    (boot sampleImage) c ∧ c.result ≠ -enomem ∧ ¬ Backed c.task c.mm := by
  let last := Library.lastState step (boot sampleImage) [.sbrk 4097]
  have run : Library.Reach step (fun _ _ => True) (boot sampleImage) last :=
    Library.Reach.lastState fun _ _ _ => trivial
  have size : last.task.heapSize = 4097 := by decide +kernel
  refine ⟨last, run, by decide +kernel, fun backed => ?_⟩
  have mapped := backed.bytes 4096 (by rw [size]; decide)
  have unmapped : (last.mm.translate last.task.dirPagesBaseAddr
      ((heapStart + 4096) / pageSize)).isSome = false := by decide +kernel
  rw [unmapped] at mapped
  cases mapped

end Caller

end Zeos
