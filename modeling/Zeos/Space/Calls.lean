import Zeos.Space.Boot

/-!
# The four calls that change address spaces

What `sys_exit`, `sys_fork` and `sys_sbrk` do to the entries and to the
holdings, and two facts that every run keeps: the tables are tidy, and no PCB
has a negative number of heap pages.
-/

namespace Zeos

open Library (Holdings)

variable {mm mm' : Memory} {dir : DirId} {count : Nat}

namespace Memory

/-! ## `sys_exit` -/

/-- The last user of a directory surrenders its data pages; the others only
lower the use count. -/
theorem releaseDir_spec (mm : Memory) (pos : DirId)
    (noFault : (Kernel.releaseDir mm pos).fault = false) :
    Edit pos (fun p => mm.dirCounter pos = 1 ∧
        Maps.Range pagLogInitData numPagData p)
      { mm with dirCounter :=
        Function.update mm.dirCounter pos (mm.dirCounter pos - 1) }
      (Kernel.releaseDir mm pos) ∧
    (mm.Tidy → (Kernel.releaseDir mm pos).holdings =
      if mm.dirCounter pos = 1 then
        mm.holdings.surrenderAll (dataPlaces pos numPagData)
      else mm.holdings) := by
  have lastIff : Function.update mm.dirCounter pos (mm.dirCounter pos - 1) pos =
      0 ↔ mm.dirCounter pos = 1 := by
    rw [Function.update_self]
    omega
  unfold Kernel.releaseDir at noFault ⊢
  dsimp only at noFault ⊢
  by_cases last : mm.dirCounter pos = 1
  · rw [if_pos (lastIff.mpr last)] at noFault ⊢
    rw [freeUserPages_eq] at noFault ⊢
    obtain ⟨_, edit, given⟩ := giveDataPages_spec _ pos numPagData noFault
    constructor
    · apply edit.mono
      exact fun p range => ⟨last, range⟩
    · intro tidy
      rw [if_pos last]
      exact given ⟨tidy.firstUsed, tidy.present, tidy.absent⟩
  · rw [if_neg fun zero => last (lastIff.mp zero)] at noFault ⊢
    rw [if_neg last]
    exact ⟨.refl _ _ _, fun _ => rfl⟩

/-! ## `sys_fork` -/

theorem reserveData_done (reserved : reserveData dir count 0 mm = (true, mm'))
    (noFault : mm'.fault = false) : Maps dir pagLogInitData count mm mm' := by
  obtain ⟨_, ⟨mm₁, finished, maps⟩ | ⟨k, mm₁, _, _, _, stopped⟩⟩ :=
    reserveData_cases dir count 0 mm (by rw [reserved]; exact noFault)
  · rw [reserved] at finished
    cases finished
    exact maps
  · rw [reserved] at stopped
    cases stopped

/-- A failed reservation gives back every frame it took. -/
theorem reserveData_failed (failed : reserveData dir count 0 mm = (false, mm'))
    (noFault : mm'.fault = false) (tidy : mm.Tidy) :
    ∃ k mm₁, k < count ∧ mm.freeFrames = k ∧
      Maps dir pagLogInitData k mm mm₁ ∧
      Edit dir (Maps.Range pagLogInitData k) mm mm' ∧
      mm'.holdings = mm₁.holdings.surrenderAll (dataPlaces dir k) := by
  obtain ⟨_, ⟨mm₁, finished, _⟩ | ⟨k, mm₁, short, empty, maps, stopped⟩⟩ :=
    reserveData_cases dir count 0 mm (by rw [failed]; exact noFault)
  · rw [failed] at finished
    cases finished
  · rw [failed, Nat.zero_add, releaseData_eq] at stopped
    obtain ⟨-, rfl⟩ := Prod.mk.inj stopped
    have mapped := maps.edit tidy
    obtain ⟨_, released, given⟩ := giveDataPages_spec mm₁ dir k noFault
    have counted := maps.freeFrames
    exact ⟨k, mm₁, short, by omega, maps, mapped.trans released,
      given (mapped.tidy tidy)⟩

/-- After a failed reservation no frame is in use that was not before, and only
the pages that were tried are empty. -/
theorem reserveData_failed_holdings
    (failed : reserveData dir count 0 mm = (false, mm'))
    (noFault : mm'.fault = false) (tidy : mm.Tidy) :
    (∀ f, mm'.holdings.used f → mm.holdings.used f) ∧
      (∀ d p, d ≠ dir → mm'.holdings.held (d, p) = mm.holdings.held (d, p)) ∧
      (mm.holdings.Exclusive → mm'.holdings.Exclusive) := by
  obtain ⟨k, mm₁, _, _, maps, _, given⟩ :=
    reserveData_failed failed noFault tidy
  obtain ⟨outside, _, _, grown⟩ := maps.held (Nat.le_refl _)
  rw [given]
  refine ⟨?_, ?_, ?_⟩
  · intro f used
    obtain ⟨usedThen, notGiven⟩ := (Holdings.surrenderAll_used _ _ _).mp used
    rcases grown f usedThen with before | ⟨p, range, holds⟩
    · exact before
    · exact absurd holds (notGiven (dir, p) (mem_dataPlaces.mpr ⟨rfl, range⟩))
  · intro d p different
    rw [Holdings.surrenderAll_held, if_neg fun member =>
      different (mem_dataPlaces.mp member).1]
    exact outside d p fun same => absurd same different
  · intro exclusive
    exact (maps.exclusive (Nat.le_refl _) exclusive).surrenderAll _

end Memory

namespace Kernel

variable {s s' : Kernel} {event : Event}

open Memory (Edit Maps)

/-- Sharing and copying after the reservation: the child's low entries are
written, and the window in the parent's table is unmapped. -/
theorem forkSpace_spec (s : Kernel) (mm : Memory) (ptChild : DirId)
    (noFault : (s.forkSpace mm ptChild).fault = false) :
    let ptParent := s.currentTask.dirPagesBaseAddr
    mm.fault = false ∧
      (mm.Tidy → (s.forkSpace mm ptChild).Tidy) ∧
      (s.forkSpace mm ptChild).dirCounter = mm.dirCounter ∧
      (s.forkSpace mm ptChild).holdings =
        mm.holdings.vacateAll (Memory.windowPlaces ptParent s.forkPages) := by
  unfold forkSpace at noFault ⊢
  dsimp only at noFault ⊢
  obtain ⟨system, systemHoldings, systemFault⟩ := Memory.sharePages_spec mm ptChild
    s.currentTask.dirPagesBaseAddr 0 numPagKernel (by decide)
  obtain ⟨code, codeHoldings, codeFault⟩ := Memory.sharePages_spec
    (mm.sharePages ptChild s.currentTask.dirPagesBaseAddr 0 numPagKernel) ptChild
    s.currentTask.dirPagesBaseAddr pagLogInitCode numPagCode (by decide)
  obtain ⟨shared, copied, vacated⟩ := Memory.copyDataPages_spec _ s.cr3 ptChild
    s.currentTask.dirPagesBaseAddr s.forkPages noFault
  refine ⟨systemFault (codeFault shared), ?_, ?_, ?_⟩
  · intro tidy
    exact copied.tidy (code.tidy (system.tidy tidy))
  · rw [copied.dirCounter, code.dirCounter, system.dirCounter]
  · rw [vacated, codeHoldings, systemHoldings]

end Kernel

/-! ## `sys_sbrk` -/

section Sbrk

open Memory (Edit Maps)

variable {increment result : Int} {t t' t₁ : TaskStruct} {mm₁ : Memory}

theorem le_heapEnd (nonneg : 0 ≤ t.heapPages) : heapInitPage ≤ heapEnd t := by
  unfold heapEnd
  omega

theorem openHeap_edit (tidy : mm.Tidy) (opened : openHeap t mm = (t₁, mm₁)) :
    Edit t.dirPagesBaseAddr (heapInitPage ≤ ·) mm mm₁ := by
  rcases openHeap_cases t mm with ⟨same, _⟩ | ⟨_, mm₂, first, maps⟩
  · rw [same] at opened
    cases opened
    exact .refl _ _ _
  · rw [first] at opened
    cases opened
    apply (maps.edit tidy).mono
    exact fun p range => range.1

/-- The loop that gives pages back does not give more than there are. -/
theorem pagesBack_le (nonneg : 0 ≤ t.heapPages)
    (noFault : (releasePages (pagesBack increment t)
      { t with heapSize := shrunkSize increment t } mm).2.fault = false) :
    (pagesBack increment t : Int) ≤ t.heapPages := by
  have bounds := (releasePages_spec _ _ _ noFault).2.2.1
  rcases pagesBack_cases nonneg bounds with none | exact_
  · omega
  · have sizeNonneg := (shrunkSize_range increment t).1
    have quotient := Int.ediv_nonneg sizeNonneg (show (0 : Int) ≤ pageSize by decide)
    omega

/-- A call changes heap pages of the caller's table only. -/
theorem SbrkEffect.edit (effect : SbrkEffect increment t mm result t' mm')
    (nonneg : 0 ≤ t.heapPages) (tidy : mm.Tidy) (noFault : mm'.fault = false) :
    Edit t.dirPagesBaseAddr (heapInitPage ≤ ·) mm mm' ∧ 0 ≤ t'.heapPages := by
  cases effect with
  | refused _ _ => exact ⟨.refl _ _ _, nonneg⟩
  | @grown t₁ mm₁ _ _ opened maps =>
      have first := openHeap_edit tidy opened
      have openNonneg := (openHeap_pcb opened nonneg).1
      have grown := maps.edit (first.tidy tidy)
      constructor
      · apply first.trans
        apply grown.mono
        intro p range
        exact (le_heapEnd openNonneg).trans range.1
      · dsimp only
        omega
  | @short t₁ mm₁ mm₂ _ k opened maps _ _ released =>
      have first := openHeap_edit tidy opened
      obtain ⟨openNonneg, sameDir⟩ := openHeap_pcb opened nonneg
      have grown := maps.edit (first.tidy tidy)
      subst released
      have back := (releasePages_spec _ _ _ noFault).2.2.2
      dsimp only at back
      refine ⟨?_, openNonneg⟩
      apply first.trans
      refine Edit.trans (show Edit _ _ _ mm₂ from ?_) ?_
      · apply grown.mono
        intro p range
        exact (le_heapEnd openNonneg).trans range.1
      · rw [← sameDir]
        apply back.mono
        intro p range
        omega
  | shrunk _ _ released =>
      subst released
      have few := pagesBack_le nonneg noFault
      have back := (releasePages_spec _ _ _ noFault).2.2.2
      dsimp only at back
      constructor
      · apply back.mono
        intro p range
        omega
      · dsimp only
        omega

end Sbrk

/-! ## What every run keeps -/

theorem int32_idem (value : Int) : int32 (int32 value) = int32 value :=
  Int.bmod_bmod

namespace Kernel

variable {s s' : Kernel} {event : Event}

structure Mapped (s : Kernel) : Prop where
  tidy : s.mm.Tidy
  nonneg : ∀ t, 0 ≤ (s.task t).heapPages

theorem tidy_congr {mm mm' : Memory} (same : SameTables mm mm')
    (tidy : mm.Tidy) : mm'.Tidy :=
  (show Memory.Edit 0 (fun _ => False) mm mm' from
    .of_eq same.pagusrTable same.physMem same.dirCounter).tidy tidy

theorem Tidy.withUses {mm : Memory} (tidy : mm.Tidy) (uses : DirId → Int) :
    { mm with dirCounter := uses }.Tidy :=
  ⟨tidy.firstUsed, tidy.present, tidy.absent⟩

theorem syscall_of_handle {call : Syscall}
    (handled : s.handle (.syscall call) = some s') : s.systemCall call = s' := by
  by_cases able : s.mode = .user ∧ s.current ≠ s.idleTask
  · rw [handle, if_pos able] at handled
    exact Option.some.inj handled
  · rw [handle, if_neg able] at handled
    cases handled

theorem Mapped.effect (mapped : s.Mapped) (effect : SpaceEffect s event s')
    (noFault : s'.mm.fault = false) : s'.Mapped := by
  obtain ⟨tidy, nonneg⟩ := mapped
  have parent : 0 ≤ s.currentTask.heapPages := nonneg s.current
  cases effect with
  | same space =>
      refine ⟨tidy_congr space.tables tidy, fun t => ?_⟩
      rw [(space.region t).heapPages]
      exact nonneg t
  | exited tables region _ after =>
      constructor
      · rw [after] at noFault ⊢
        have edit := (Memory.releaseDir_spec _ _ noFault).1
        exact edit.tidy (Tidy.withUses (tidy_congr tables tidy) _)
      · intro t
        rw [(region t).heapPages]
        exact nonneg t
  | @forkFailed child _ _ _ _ taken failed _ after =>
      rw [after] at noFault
      obtain ⟨k, mm₁, _, _, _, edit, _⟩ :=
        Memory.reserveData_failed failed noFault (Tidy.withUses tidy _)
      constructor
      · rw [after]
        exact edit.tidy (Tidy.withUses tidy _)
      · intro t
        by_cases isChild : t = child
        · rw [isChild, taken.own.heapPages]
          exact parent
        · rw [(taken.others t isChild).heapPages]
          exact nonneg t
  | @forked child _ _ _ _ taken reserved _ after =>
      rw [after] at noFault
      obtain ⟨reservedFault, keeps, _, _⟩ := forkSpace_spec s _ _ noFault
      have maps := Memory.reserveData_done reserved reservedFault
      constructor
      · rw [after]
        exact keeps ((maps.edit (Tidy.withUses tidy _)).tidy
          (Tidy.withUses tidy _))
      · intro t
        by_cases isChild : t = child
        · rw [isChild, taken.own.heapPages]
          exact parent
        · rw [(taken.others t isChild).heapPages]
          exact nonneg t
  | @cloned _ _ child _ _ _ others own _ after =>
      constructor
      · rw [after]
        exact Tidy.withUses tidy _
      · intro t
        by_cases isChild : t = child
        · rw [isChild, own.heapPages]
          exact parent
        · rw [(others t isChild).heapPages]
          exact nonneg t
  | moved others own _ after =>
      rw [after] at noFault
      have effect := sysSbrk_effect _ _ _ parent noFault
      obtain ⟨edit, pages⟩ := effect.edit parent tidy noFault
      constructor
      · rw [after]
        exact edit.tidy tidy
      · intro t
        by_cases isCurrent : t = s.current
        · rw [isCurrent, own.heapPages]
          exact pages
        · rw [(others t isCurrent).heapPages]
          exact nonneg t

theorem boot_mapped (image : BootImage) : (boot image).Mapped := by
  have regions := (boot_space image).1
  have data : numPagKernel = 256 ∧ totalPages = 1024 ∧ pagLogInitCode = 256 ∧
      pagLogInitData = 264 ∧ heapInitPage = 284 ∧
      numPagCode + numPagData = 28 :=
    ⟨rfl, rfl, rfl, rfl, rfl, rfl⟩
  refine ⟨⟨?_, ?_, ?_⟩, ?_⟩
  · rw [boot_used]
    omega
  · intro dir page high
    unfold Memory.getFrame
    rw [boot_dataEntry image dir high]
    split_ifs with mapped
    · intro _
      dsimp only
      omega
    · intro present
      cases present
  · intro dir page high
    unfold Memory.getFrame
    rw [boot_dataEntry image dir high]
    split_ifs
    · intro absent
      cases absent
    · exact fun _ => rfl
  · intro t
    rw [(regions t).heapPages]

theorem mapped_of_reachable {image : BootImage} (run : Reachable image s) :
    s.Mapped := by
  refine Library.Reach.invariant_over Mapped (boot_mapped image)
    (fun _ plain => orderly_of_reachable plain) ?_ run
  intro before event after orderly mapped _ taken
  exact mapped.effect (handle_space orderly (handle_of_step taken))
    (fault_of_step taken)

end Kernel

end Zeos
