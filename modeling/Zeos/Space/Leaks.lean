import Zeos.Space.Backing
import Zeos.Space.Exceptions
import Zeos.Space.Exclusive
import Zeos.Space.Translations

/-!
# No frame is lost

A frame in use is a code frame of the first process or is mapped by a live
process, as long as no call drops the last entry that maps a frame without
freeing it.  The last process of a directory does so when it exits with heap
pages, because `free_user_pages` frees the data pages only; `sys_fork` and
`sys_sbrk` do so when they write an entry that is in use, and `sys_sbrk` when
it clears the entry behind the pages that it frees.
-/

namespace Zeos

open Library (Holdings)
open Memory (Maps)

theorem Memory.held_of_entry {mm mm' : Memory} {dir : DirId} {page : Nat}
    (same : mm'.pagusrTable dir page = mm.pagusrTable dir page) :
    mm'.holdings.held (dir, page) = mm.holdings.held (dir, page) := by
  unfold holdings getFrame
  dsimp only
  rw [same]

theorem Memory.high_of_held {mm : Memory} {place : DirId × Nat} {frame : Nat}
    (holds : mm.holdings.held place = some frame) :
    pagLogInitData ≤ place.2 ∧
      (mm.pagusrTable place.1 place.2).present = true ∧
      mm.getFrame place.1 place.2 = frame := by
  obtain ⟨⟨high, present⟩, isFrame⟩ := Option.ite_none_right_eq_some.mp holds
  exact ⟨high, present, Option.some_inj.mp isFrame⟩

/-! ## `sys_sbrk` -/

section Sbrk

variable {increment result : Int} {t t' t₁ : TaskStruct} {mm mm' mm₁ : Memory}
  {page frame : Nat}

/-- The pages of the caller whose entries a call writes without freeing the
frames that they map: the pages that a growing call writes, and the page behind
the heap in a shrinking call that gives pages back. -/
def SbrkDrops (increment : Int) (t : TaskStruct) (mm : Memory) (page : Nat) :
    Prop :=
  if increment < 0 then
    t.heap ≠ 0 ∧ pagesBack increment t ≠ 0 ∧ page = heapEnd t
  else
    SbrkWrites increment t mm page

/-- A page that is not dropped keeps its frame, or the frame is free. -/
theorem SbrkEffect.kept (effect : SbrkEffect increment t mm result t' mm')
    (nonneg : 0 ≤ t.heapPages) (tidy : mm.Tidy) (noFault : mm'.fault = false)
    {dir : DirId} (spared : dir = t.dirPagesBaseAddr → ¬ SbrkDrops increment t mm page)
    (holds : mm.holdings.held (dir, page) = some frame)
    (used : mm'.holdings.used frame) :
    mm'.holdings.held (dir, page) = some frame := by
  by_cases own : dir = t.dirPagesBaseAddr
  · have spared := spared own
    unfold SbrkDrops at spared
    split_ifs at spared with shrinking
    · cases effect with
      | refused _ _ => exact holds
      | grown growing _ _ => exact absurd growing (Int.not_le.mpr shrinking)
      | short _ _ _ few _ =>
          have positive := pos_of_newPages (Nat.ne_zero_of_lt few)
          omega
      | shrunk _ heap released =>
          subst released
          have few := pagesBack_le nonneg noFault
          obtain ⟨held, stillUsed⟩ := releasePages_holdings (pagesBack increment t)
            { t with heapSize := shrunkSize increment t } mm tidy few noFault
          rw [held dir page, if_neg, holds]
          rintro ⟨_, lower, upper⟩
          dsimp only at lower upper
          by_cases last : page = heapEnd t
          · exact spared ⟨heap, by omega, last⟩
          · have ending := heapEnd_eq nonneg
            refine ((stillUsed frame).mp used).2 page (by dsimp only; omega)
              (by dsimp only; omega) ?_
            rw [← own]
            exact holds
    · rw [Memory.held_of_entry (effect.spares nonneg noFault spared dir), holds]
  · have edit := (effect.edit nonneg tidy noFault).1
    rw [Memory.held_of_entry (edit.table dir page fun same => absurd same own),
      holds]

/-- The frame of a new heap is mapped by its first page. -/
theorem openHeap_fresh (opened : openHeap t mm = (t₁, mm₁))
    (used : mm₁.holdings.used frame) (fresh : ¬ mm.holdings.used frame) :
    mm₁.holdings.held (t.dirPagesBaseAddr, heapInitPage) = some frame ∧
      heapInitPage < heapEnd t₁ := by
  rcases openHeap_cases t mm with ⟨same, _⟩ | ⟨_, mm₂, first, maps⟩
  · rw [same] at opened
    cases opened
    exact absurd used fresh
  · rw [first] at opened
    cases opened
    obtain ⟨_, _, _, grown⟩ := maps.held (by decide)
    rcases grown frame used with before | ⟨page, range, holds⟩
    · exact absurd before fresh
    · have isFirst : page = heapInitPage := by omega
      rw [isFirst] at holds
      refine ⟨holds, ?_⟩
      unfold heapEnd
      dsimp only
      omega

/-- A frame that a call takes is mapped in the caller's table. -/
theorem SbrkEffect.fresh (effect : SbrkEffect increment t mm result t' mm')
    (nonneg : 0 ≤ t.heapPages) (tidy : mm.Tidy) (noFault : mm'.fault = false)
    (used : mm'.holdings.used frame) (fresh : ¬ mm.holdings.used frame) :
    ∃ page, page < totalPages ∧
      mm'.holdings.held (t.dirPagesBaseAddr, page) = some frame := by
  have inTable : heapInitPage < totalPages := by decide
  have high : ∀ {t₁ mm₁}, openHeap t mm = (t₁, mm₁) →
      pagLogInitData ≤ heapEnd t₁ := fun opened =>
    le_trans (by decide) (le_heapEnd (openHeap_pcb opened nonneg).1)
  cases effect with
  | refused _ _ => exact absurd used fresh
  | @grown t₁ mm₁ _ _ opened maps =>
      obtain ⟨outside, _, _, grown⟩ := maps.held (high opened)
      rcases grown frame used with before | ⟨page, range, holds⟩
      · obtain ⟨holds, below⟩ := openHeap_fresh opened before fresh
        refine ⟨heapInitPage, inTable, ?_⟩
        rw [outside _ _ fun _ range => by omega, holds]
      · exact ⟨page, maps.inTable range, holds⟩
  | @short t₁ mm₁ mm₂ _ k opened maps _ _ released =>
      obtain ⟨outside, _, _, grown⟩ := maps.held (high opened)
      subst released
      obtain ⟨openNonneg, sameDir⟩ := openHeap_pcb opened nonneg
      have ending := heapEnd_eq openNonneg
      have openTidy := (openHeap_edit tidy opened).tidy tidy
      obtain ⟨held, stillUsed⟩ := releasePages_holdings k _ mm₂
        ((maps.edit openTidy).tidy openTidy) (by dsimp only; omega) noFault
      obtain ⟨usedThen, notFreed⟩ := (stillUsed frame).mp used
      rcases grown frame usedThen with before | ⟨page, range, holds⟩
      · obtain ⟨holds, below⟩ := openHeap_fresh opened before fresh
        refine ⟨heapInitPage, inTable, ?_⟩
        rw [held, if_neg fun cleared => by dsimp only at cleared; omega,
          outside _ _ fun _ range => by omega, holds]
      · refine absurd ?_ (notFreed page (by dsimp only; omega)
          (by dsimp only; omega))
        dsimp only
        rw [sameDir]
        exact holds
  | shrunk _ _ released =>
      subst released
      have few := pagesBack_le nonneg noFault
      obtain ⟨_, stillUsed⟩ := releasePages_holdings (pagesBack increment t)
        { t with heapSize := shrunkSize increment t } mm tidy few noFault
      exact absurd ((stillUsed frame).mp used).1 fresh

end Sbrk

namespace Kernel

variable {s s' : Kernel} {event : Event} {image : BootImage}

/-! ## What is counted and what is dropped -/

/-- A place in the table of a live process. -/
def Counted (s : Kernel) (place : DirId × Nat) : Prop :=
  s.users place.1 ≠ 0 ∧ place.2 < totalPages

theorem Counted.of_users {place : DirId × Nat} (counted : s.Counted place)
    (more : s.users place.1 ≤ s'.users place.1) : s'.Counted place :=
  ⟨by have own := counted.1; omega, counted.2⟩

/-- The places whose entries an event drops without freeing the frames.  An
exit drops the table of a directory that nobody else uses, but for the data
pages if its use count is one; a fork writes the entries of the pages that it
takes, and of the window if it finds its frames. -/
def Drops (s : Kernel) : Event → DirId × Nat → Prop
  | .syscall .exit, place =>
      place.1 = s.parentDir ∧ s.users s.parentDir = 1 ∧
        (s.mm.dirCounter s.parentDir = 1 → heapInitPage ≤ place.2)
  | .syscall .fork, place =>
      s.queue .freequeue ≠ [] ∧
        if s.forkPages ≤ s.mm.freeFrames then
          (place.1 = s.chosenDir ∧ s.ChildPage place.2) ∨
            (place.1 = s.parentDir ∧ s.WindowPage place.2)
        else
          place.1 = s.chosenDir ∧
            Maps.Range pagLogInitData s.mm.freeFrames place.2
  | .syscall (.sbrk increment), place =>
      place.1 = s.parentDir ∧
        SbrkDrops increment.toInt s.currentTask s.mm place.2
  | _, _ => False

/-- A frame in use that a live process maps at a dropped entry is also mapped
at an entry of a live process that is not dropped. -/
def SparesFrames (s : Kernel) (event : Event) : Prop :=
  s.mm.holdings.Spared s.Counted fun place => s.Counted place ∧ s.Drops event place

section Steps

variable {exempt : Nat → Prop}

theorem covered_exit {mm : Memory} (orderly : s.Orderly) (mapped : s.Mapped)
    (covered : s.mm.holdings.Covered s.Counted exempt)
    (spared : s.SparesFrames (.syscall .exit)) (tables : SameTables s.mm mm)
    (region : ∀ t, SameRegion (s.task t) (s'.task t))
    (live : s'.live = Function.update s.live s.current false)
    (after : s'.mm = releaseDir mm s.parentDir) (noFault : s'.mm.fault = false) :
    s'.mm.holdings.Covered s'.Counted exempt := by
  rw [after] at noFault ⊢
  have given := (Memory.releaseDir_spec _ _ noFault).2
    (tidy_congr tables mapped.tidy)
  rw [tables.dirCounter,
    Memory.holdings_congr tables.pagusrTable tables.physMem] at given
  have bounds : heapInitPage = pagLogInitData + numPagData := by decide
  refine covered.step spared ?_ ?_
  · intro place frame counted kept holds used
    have high := (Memory.high_of_held holds).1
    have change := users_exited region live orderly.settled.currentLive place.1
    change s'.users place.1 + (if s.parentDir = place.1 then 1 else 0) = _ at change
    rw [given] at used ⊢
    by_cases data : s.mm.dirCounter s.parentDir = 1 ∧ place.1 = s.parentDir ∧
        place.2 < heapInitPage
    · -- the frame of such a page is freed
      rw [if_pos data.1, Holdings.surrenderAll_used] at used
      refine absurd holds (used.2 place (Memory.mem_dataPlaces.mpr
        ⟨data.2.1, high, ?_⟩))
      omega
    · constructor
      · refine ⟨fun nobody => kept ⟨counted, ?_⟩, counted.2⟩
        have somebody := counted.1
        split_ifs at change with own
        · refine ⟨own.symm, by rw [own]; omega, fun last => ?_⟩
          by_contra low
          exact data ⟨last, own.symm, by omega⟩
        · omega
      · split_ifs with last
        · rw [Holdings.surrenderAll_held, if_neg, holds]
          intro member
          obtain ⟨own, _, below⟩ := Memory.mem_dataPlaces.mp member
          exact data ⟨last, own, by omega⟩
        · exact holds
  · intro frame used fresh
    rw [given] at used
    split_ifs at used
    · exact absurd ((Holdings.surrenderAll_used _ _ _).mp used).1 fresh
    · exact absurd used fresh

theorem covered_forkFailed {child : TaskId} {dir : DirId} {uses : DirId → Int}
    {mm : Memory} (orderly : s.Orderly) (mapped : s.Mapped)
    (covered : s.mm.holdings.Covered s.Counted exempt)
    (spared : s.SparesFrames (.syscall .fork)) (taken : s.ForkTaken child dir uses s')
    (failed : Memory.reserveData dir s.forkPages 0
      { s.mm with dirCounter := uses } = (false, mm))
    (live : s'.live = s.live) (after : s'.mm = mm) (noFault : s'.mm.fault = false) :
    s'.mm.holdings.Covered s'.Counted exempt := by
  have dead := orderly.dead taken.member
  have tidy := Tidy.withUses mapped.tidy uses
  rw [after] at noFault ⊢
  obtain ⟨k, mm₁, short, few, maps, _, given⟩ :=
    Memory.reserveData_failed failed noFault tidy
  change s.mm.freeFrames = k at few
  obtain ⟨outside, _⟩ := maps.held (Nat.le_refl _)
  refine covered.step spared ?_ ?_
  · intro place frame counted kept holds _
    have notTried : ¬ (place.1 = dir ∧ Maps.Range pagLogInitData k place.2) := by
      rintro ⟨own, range⟩
      refine kept ⟨counted, List.ne_nil_of_mem taken.member, ?_⟩
      rw [if_neg (by omega), few]
      exact ⟨own.trans taken.chosen, range⟩
    refine ⟨counted.of_users (users_spare dead taken.others live _).ge, ?_⟩
    rw [given, Holdings.surrenderAll_held,
      if_neg fun member => notTried (Memory.mem_dataPlaces.mp member)]
    exact (outside place.1 place.2 fun own range => notTried ⟨own, range⟩).trans
      holds
  · intro frame used fresh
    have before :=
      (Memory.reserveData_failed_holdings failed noFault tidy).1 frame used
    exact absurd before fresh

theorem covered_forked {child : TaskId} {dir : DirId} {uses : DirId → Int}
    {mm : Memory} (orderly : s.Orderly)
    (covered : s.mm.holdings.Covered s.Counted exempt)
    (spared : s.SparesFrames (.syscall .fork)) (taken : s.ForkTaken child dir uses s')
    (reserved : Memory.reserveData dir s.forkPages 0
      { s.mm with dirCounter := uses } = (true, mm))
    (live : s'.live = Function.update s.live child true)
    (after : s'.mm = s.forkSpace mm dir) (noFault : s'.mm.fault = false) :
    s'.mm.holdings.Covered s'.Counted exempt := by
  have dead := orderly.dead taken.member
  have born := users_born dead taken.others taken.own.dirPagesBaseAddr live
  rw [after] at noFault ⊢
  obtain ⟨reservedFault, _, _, vacated⟩ := forkSpace_spec s _ _ noFault
  have maps := Memory.reserveData_done reserved reservedFault
  have enough := maps.freeFrames
  change s.mm.freeFrames = mm.freeFrames + s.forkPages at enough
  obtain ⟨outside, _, _, grown⟩ := maps.held (Nat.le_refl _)
  refine covered.step spared ?_ ?_
  · intro place frame counted kept holds _
    have notWritten : ¬ ((place.1 = dir ∧ s.ChildPage place.2) ∨
        (place.1 = s.parentDir ∧ s.WindowPage place.2)) := by
      intro written
      refine kept ⟨counted, List.ne_nil_of_mem taken.member, ?_⟩
      rw [if_pos (by omega)]
      exact written.imp_left fun own => ⟨own.1.trans taken.chosen, own.2⟩
    refine ⟨counted.of_users (by rw [born]; omega), ?_⟩
    rw [vacated, Holdings.vacateAll_held, if_neg]
    · refine (outside place.1 place.2 fun own range => notWritten ?_).trans holds
      exact Or.inl ⟨own, range⟩
    · intro member
      have window := Memory.mem_windowPlaces.mp member
      exact notWritten (Or.inr ⟨window.1, by omega⟩)
  · intro frame used fresh
    rw [vacated, Holdings.vacateAll_used] at used
    rcases grown frame used with before | ⟨page, range, holds⟩
    · exact absurd before fresh
    · refine ⟨(dir, page), ⟨?_, maps.inTable range⟩, ?_⟩
      · dsimp only
        rw [born, if_pos rfl]
        omega
      · rw [vacated, Holdings.vacateAll_held, if_neg, holds]
        intro member
        have window := Memory.mem_windowPlaces.mp member
        omega

theorem covered_sbrk {increment : Int32} (mapped : s.Mapped)
    (orderly : s.Orderly) (covered : s.mm.holdings.Covered s.Counted exempt)
    (spared : s.SparesFrames (.syscall (.sbrk increment)))
    (others : ∀ t, t ≠ s.current → SameRegion (s.task t) (s'.task t))
    (own : SameRegion (Zeos.sysSbrk increment s.currentTask s.mm).2.1
      (s'.task s.current))
    (live : s'.live = s.live)
    (after : s'.mm = (Zeos.sysSbrk increment s.currentTask s.mm).2.2)
    (noFault : s'.mm.fault = false) :
    s'.mm.holdings.Covered s'.Counted exempt := by
  have nonneg : 0 ≤ s.currentTask.heapPages := mapped.nonneg s.current
  have users := users_same (moved_dirs others own) live
  rw [after] at noFault ⊢
  have effect := sysSbrk_effect increment s.currentTask s.mm nonneg noFault
  refine covered.step spared ?_ ?_
  · intro place frame counted kept holds used
    refine ⟨counted.of_users (users _).ge, ?_⟩
    refine effect.kept nonneg mapped.tidy noFault (fun isOwn drops => ?_) holds used
    exact kept ⟨counted, isOwn, drops⟩
  · intro frame used fresh
    obtain ⟨page, inTable, holds⟩ :=
      effect.fresh nonneg mapped.tidy noFault used fresh
    refine ⟨_, ⟨?_, inTable⟩, holds⟩
    dsimp only
    rw [users]
    exact users_parentDir orderly

theorem covered_effect (orderly : s.Orderly) (mapped : s.Mapped)
    (covered : s.mm.holdings.Covered s.Counted exempt)
    (spared : s.SparesFrames event) (effect : SpaceEffect s event s')
    (noFault : s'.mm.fault = false) :
    s'.mm.holdings.Covered s'.Counted exempt := by
  cases effect with
  | same space =>
      rw [Memory.holdings_congr space.tables.pagusrTable space.tables.physMem]
      have users := users_same (fun t => (space.region t).dirPagesBaseAddr)
        space.live
      intro frame used
      refine (covered frame used).imp_right fun ⟨place, counted, holds⟩ => ?_
      exact ⟨place, counted.of_users (users _).ge, holds⟩
  | exited tables region live after =>
      exact covered_exit orderly mapped covered spared tables region live after
        noFault
  | forkFailed taken failed live after =>
      exact covered_forkFailed orderly mapped covered spared taken failed live
        after noFault
  | forked taken reserved live after =>
      exact covered_forked orderly covered spared taken reserved live after noFault
  | cloned member _ others own live after =>
      have dead := orderly.dead member
      rw [after]
      intro frame used
      refine (covered frame used).imp_right fun ⟨place, counted, holds⟩ => ?_
      refine ⟨place, counted.of_users ?_, holds⟩
      rw [users_born dead others own.dirPagesBaseAddr live]
      omega
  | moved others own live after =>
      exact covered_sbrk mapped orderly covered spared others own live after noFault

end Steps

/-! ## Every run -/

/-- A frame that the code pages of the first process map at boot. -/
def CodeFrame (image : BootImage) (frame : Nat) : Prop :=
  ∃ page, pagLogInitCode ≤ page ∧ page < pagLogInitData ∧
    (boot image).mm.getFrame ((boot image).task 1).dirPagesBaseAddr page = frame

/-- Every frame in use above the kernel is a code frame or is mapped at a data
or heap page of a live process. -/
def NoLeaks (image : BootImage) (s : Kernel) : Prop :=
  ∀ frame, numPagKernel ≤ frame → s.mm.physMem frame = .usedFrame →
    CodeFrame image frame ∨
      ∃ t page, s.live t = true ∧ pagLogInitData ≤ page ∧ page < totalPages ∧
        (s.mm.pagusrTable (s.task t).dirPagesBaseAddr page).present = true ∧
        s.mm.getFrame (s.task t).dirPagesBaseAddr page = frame

theorem codeFrame_iff {frame : Nat} : CodeFrame image frame ↔
    numPagKernel ≤ frame ∧ frame < numPagKernel + 2 * numPagCode ∧
      frame % 2 = 0 := by
  have data : numPagKernel = 256 ∧ pagLogInitCode = 256 ∧ pagLogInitData = 264 ∧
      heapInitPage = 284 ∧ numPagCode = 8 := ⟨rfl, rfl, rfl, rfl, rfl⟩
  have ownDir : ((boot image).task 1).dirPagesBaseAddr = 1 :=
    ((boot_space image).1 1).dirPagesBaseAddr
  have entry : ∀ page, pagLogInitCode ≤ page → page < pagLogInitData →
      (boot image).mm.getFrame 1 page =
        numPagKernel + 2 * (page - pagLogInitCode) := by
    intro page lower upper
    unfold Memory.getFrame
    rw [boot_table, if_pos rfl, Memory.userTable, if_pos ⟨lower, by omega⟩]
  unfold CodeFrame
  rw [ownDir]
  constructor
  · rintro ⟨page, lower, upper, rfl⟩
    rw [entry page lower upper]
    omega
  · intro range
    refine ⟨pagLogInitCode + (frame - numPagKernel) / 2, by omega, by omega, ?_⟩
    rw [entry _ (by omega) (by omega)]
    omega

theorem boot_covered (image : BootImage) :
    (boot image).mm.holdings.Covered (boot image).Counted
      fun frame => frame < numPagKernel ∨ CodeFrame image frame := by
  have data : numPagKernel = 256 ∧ pagLogInitCode = 256 ∧ pagLogInitData = 264 ∧
      numPagCode = 8 ∧ numPagData = 20 ∧ heapInitPage = 284 ∧
        totalPages = 1024 := ⟨rfl, rfl, rfl, rfl, rfl, rfl, rfl⟩
  intro frame used
  have range := (boot_used image frame).mp used
  by_cases isExempt : frame < numPagKernel ∨ CodeFrame image frame
  · exact Or.inl isExempt
  · rw [codeFrame_iff] at isExempt
    let page := pagLogInitCode + (frame - numPagKernel) / 2
    have high : pagLogInitData ≤ page := by omega
    have entry := boot_dataEntry image 1 high
    rw [if_pos ⟨rfl, by omega⟩] at entry
    refine Or.inr ⟨(1, page), ⟨?_, by dsimp only; omega⟩, ?_⟩
    · intro nobody
      have counted := boot_counted image 1
      rw [nobody, (boot_space image).2] at counted
      change bootUses 1 = 0 at counted
      exact absurd counted (by decide)
    · rw [Memory.held_eq_some _ _ high (by rw [entry]), Option.some_inj]
      unfold Memory.getFrame
      rw [entry]
      dsimp only
      omega

/-! ## Behind the page table -/

/-- One step of the kernel, also where `sbrk` goes past the page table of its caller: it
stores to the next table and returns without an exception.  What it stores behind the
last table is not described. -/
def follow (s : Kernel) : Event → Option Kernel
  | .syscall (.sbrk increment) =>
      (s.handle (.syscall (.sbrk increment))).map fun after =>
        { after with mm := { after.mm with fault := false } }
  | event => s.advance event

/-- The loops of `sbrk` stay inside the caller's page table. -/
def SbrkStays (s : Kernel) : Event → Prop
  | .syscall (.sbrk increment) => SbrkInTable increment.toInt s.currentTask s.mm
  | _ => True

/-- Every step whose buffer fits and in which `sbrk` stays inside the table is one of the
system. -/
theorem step_of_follow (reachable : Reachable image s) (fits : s.BuffersFit event)
    (stays : s.SbrkStays event) (taken : s.follow event = some s') : s.step event = some s' := by
  have plain : s.advance event = some s' → s.step event = some s' := (if_pos fits).trans
  cases event with
  | syscall call =>
      cases call with
      | sbrk increment =>
          obtain ⟨after, handled, cleared⟩ := Option.map_eq_some_iff.mp taken
          have able := handled
          rw [handle] at able
          split_ifs at able with possible
          have noFault : after.mm.fault = false := by
            rw [← Option.some.inj able]
            exact (call_fault (orderly_of_reachable reachable) (mapped_of_reachable reachable)
              (paged_of_reachable reachable) (codeReserved_of_reachable reachable).few
              (noFault_of_reachable reachable) possible.2 (.sbrk increment)).mpr stays
          have same : after = s' := by
            rw [← cleared, ← noFault]
          exact step_eq_some.mpr ⟨fits, same ▸ handled, same ▸ noFault⟩
      | _ => exact plain taken
  | _ => exact plain taken

/-- In a run in which the buffers fit, `sbrk` stays inside the page table of its caller, and
no event drops the last entry that maps a frame in use without freeing the frame, no frame
is lost. -/
theorem no_frame_leaks
    (followed : Library.Reach follow
      (fun s event => s.BuffersFit event ∧ s.SbrkStays event ∧ s.SparesFrames event)
      (boot image) s) : NoLeaks image s := by
  have run : ReachableUnder SparesFrames image s := by
    induction followed with
    | start => exact .start
    | step _ allowed taken spared =>
        obtain ⟨fits, stays, spares⟩ := allowed
        exact spared.step spares
          (step_of_follow (spared.mono fun _ _ _ => trivial) fits stays taken)
  have covered : s.mm.holdings.Covered s.Counted
      fun frame => frame < numPagKernel ∨ CodeFrame image frame := by
    refine Library.Reach.invariant_over
      (fun state => state.mm.holdings.Covered state.Counted
        fun frame => frame < numPagKernel ∨ CodeFrame image frame)
      (boot_covered image)
      (fun _ plain => (⟨orderly_of_reachable plain, mapped_of_reachable plain⟩ :
        Orderly _ ∧ Mapped _)) ?_ run
    intro before event after base covered spared taken
    exact covered_effect base.1 base.2 covered spared
      (handle_space base.1 (handle_of_step taken)) (fault_of_step taken)
  intro frame high used
  rcases covered frame used with (low | code) | ⟨place, counted, holds⟩
  · omega
  · exact Or.inl code
  · obtain ⟨above, present, isFrame⟩ := Memory.high_of_held holds
    have somebody : ∃ t, s.Uses place.1 t := by
      by_contra nobody
      exact counted.1 (users_eq_zero_iff.mpr fun t uses => nobody ⟨t, uses⟩)
    obtain ⟨t, live, own⟩ := somebody
    rw [← own] at present isFrame
    exact Or.inr ⟨t, place.2, live, above, counted.2, present, isFrame⟩

/-- At boot only the data pages of the first process map a frame. -/
theorem boot_held {place : DirId × Nat} {frame : Nat}
    (holds : (boot image).mm.holdings.held place = some frame) :
    place.1 = 1 ∧ place.2 < heapInitPage := by
  obtain ⟨high, present, _⟩ := Memory.high_of_held holds
  rw [boot_dataEntry image place.1 high] at present
  by_contra outside
  rw [if_neg outside] at present
  cases present

/-- A fork spares all frames when its caller alone maps any, and has no heap. -/
theorem sparesFrames_fork (otherDir : s.chosenDir ≠ s.parentDir)
    (pages : heapInitPage ≤ pagLogInitData + s.forkPages)
    (alone : ∀ place frame, s.mm.holdings.held place = some frame →
      place.1 = s.parentDir ∧ place.2 < heapInitPage) :
    s.SparesFrames (.syscall .fork) := by
  rintro place frame ⟨_, _, written⟩ holds _
  obtain ⟨own, low⟩ := alone place frame holds
  split_ifs at written
  · rcases written with ⟨chosen, _⟩ | ⟨_, window⟩
    · exact absurd (chosen.symm.trans own) otherDir
    · omega
  · exact absurd (written.1.symm.trans own) otherDir

theorem no_frame_leaks_forked : ∃ s,
    (boot sampleImage).follow (.syscall .fork) = some s ∧ NoLeaks sampleImage s := by
  have first : ((boot sampleImage).follow (.syscall .fork)).isSome = true ∧
      (boot sampleImage).BuffersFit (.syscall .fork) ∧
      (boot sampleImage).chosenDir ≠ (boot sampleImage).parentDir ∧
      heapInitPage ≤ pagLogInitData + (boot sampleImage).forkPages ∧
      (boot sampleImage).parentDir = 1 := by
    decide +kernel
  obtain ⟨forks, fits, otherDir, pages, own⟩ := first
  obtain ⟨s, taken⟩ := Option.isSome_iff_exists.mp forks
  have spared := sparesFrames_fork otherDir pages fun place frame holds => by
    rw [own]
    exact boot_held holds
  exact ⟨s, taken, no_frame_leaks (.step .start ⟨fits, trivial, spared⟩ taken)⟩

/-- The first process forks, makes a heap and exits: the frame of the heap page
stays in use, and its child does not map it. -/
theorem heap_frame_leaks : ∃ s, Reachable sampleImage s ∧ s.mode = .user ∧
    s.current ≠ s.idleTask ∧ ¬ NoLeaks sampleImage s := by
  let last := Library.lastState (Library.guarded step SbrkSound) (boot sampleImage)
    [.syscall .fork, .syscall (.sbrk 1), .syscall .exit, .resume]
  have run : ReachableUnder SbrkSound sampleImage last :=
    (Library.Reach.lastState fun _ _ _ => trivial).guarded
  have lost : last.mode = .user ∧ last.current ≠ last.idleTask ∧
      last.mm.physMem 352 = .usedFrame ∧
      (last.mm.pagusrTable 1 284).present = true ∧ last.mm.getFrame 1 284 = 352 ∧
      ∀ t, last.live t = true → (last.task t).dirPagesBaseAddr ≠ 1 := by
    decide +kernel
  obtain ⟨mode, busy, used, present, maps, otherDir⟩ := lost
  have heapPage := Memory.held_eq_some last.mm 1 (by decide) present
  refine ⟨last, run.mono fun _ _ _ => trivial, mode, busy, fun noLeaks => ?_⟩
  rcases noLeaks 352 (by decide) used with
    code | ⟨t, page, live, high, _, mapped, isFrame⟩
  · exact absurd (codeFrame_iff.mp code) (by decide)
  · -- the frame is mapped once, in the table of the process that exited
    have place := Memory.held_eq_some last.mm _ high mapped
    rw [isFrame, ← maps] at place
    have same := (exclusive_of_run run).single _ _ _ place heapPage
    exact otherDir t live (Prod.mk.inj same).1

end Kernel

end Zeos
