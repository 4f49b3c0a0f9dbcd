import Zeos.Space.Copying
import Zeos.Space.Directories

/-!
# What a child finds in its table

`allocate_DIR` hands out a table as its last user left it.  A child's table
holds nothing above the code but the pages that `sys_fork` mapped, exactly if
the table was empty above them; `free_user_pages` empties the data pages only,
so a process that exits with a heap leaves its heap pages to the next child.
-/

namespace Zeos

namespace Kernel

open Memory (Maps pageEntry)

variable {s s' : Kernel} {child : TaskId} {image : BootImage}

/-- The directory that a child will get: the first that is not counted as used,
or its parent's. -/
def chosenDir (s : Kernel) : DirId := s.unusedDir.getD s.parentDir

/-! ## The three outcomes of a fork -/

/-- A fork that runs out of frames: the PCB it took is a copy of its caller's,
but for the directory. -/
structure ForkFails (s : Kernel) (child : TaskId) (s' : Kernel) : Prop where
  first : ∃ rest, s.queue .freequeue = child :: rest
  different : child ≠ s.current
  task : s'.task = Function.update s.task child
    { s.currentTask with dirPagesBaseAddr := s.chosenDir }
  live : s'.live = s.live
  few : s.mm.freeFrames < s.forkPages
  reserved : ∃ uses, s.ForkDir s.chosenDir uses ∧
    Memory.reserveData s.chosenDir s.forkPages 0 { s.mm with dirCounter := uses } =
      (false, s'.mm)

/-- A fork that makes a child. -/
structure ForkSucceeds (s : Kernel) (child : TaskId) (s' : Kernel) : Prop where
  first : ∃ rest, s.queue .freequeue = child :: rest
  different : child ≠ s.current
  others : ∀ t, t ≠ child → SameRegion (s.task t) (s'.task t)
  own : SameRegion { s.currentTask with dirPagesBaseAddr := s.chosenDir }
    (s'.task child)
  live : s'.live = Function.update s.live child true
  enough : s.forkPages ≤ s.mm.freeFrames
  forked : ForkedSpace s s.chosenDir s'.mm

theorem fork_outcome (orderly : s.Orderly) (mapped : s.Mapped) (paged : s.Paged)
    (taken : s.step (.syscall .fork) = some s') :
    (s.queue .freequeue = [] ∧ s' = s.userToSysStats.sysReturn (-eagain)) ∨
      (∃ child, ForkFails s child s') ∨ ∃ child, ForkSucceeds s child s' := by
  have noFault := fault_of_step taken
  have called := syscall_of_handle (handle_of_step taken)
  by_cases free : s.queue .freequeue = []
  · have empty : s.userToSysStats.listEmpty .freequeue = true :=
      (orderly.userToSysStats.refines.listEmpty_iff (q := .freequeue)
        trivial).mpr free
    have shape : s.systemCall .fork = s.userToSysStats.sysReturn (-eagain) := by
      change s.userToSysStats.sysFork.2.sysReturn s.userToSysStats.sysFork.1 = _
      rw [sysFork, if_pos empty]
    exact Or.inl ⟨free, called.symm.trans shape⟩
  · obtain ⟨child, rest, queue⟩ := List.exists_cons_of_ne_nil free
    have different : child ≠ s.current :=
      orderly.settled.away (show child ∈ s.queue .freequeue by simp [queue])
    obtain ⟨dir, uses, mm, directory, chosen, others, own, outcome⟩ :=
      forkInto_space (s.userToSysStats.listDel child) different
    have forkDir : s.ForkDir dir uses := by
      cases directory with
      | found unused => exact .found unused
      | inherited all => exact .inherited all
    have isChosen : dir = s.chosenDir := chosen
    rw [fork_shape orderly queue] at called
    subst called isChosen
    rcases outcome with ⟨failed, _, task, live, after⟩ | ⟨reserved, live, after⟩
    · subst after
      obtain ⟨k, _, short, few, _⟩ := Memory.reserveData_failed failed noFault
        (Tidy.withUses mapped.tidy _)
      change s.mm.freeFrames = k at few
      change k < s.forkPages at short
      exact Or.inr (Or.inl ⟨child, ⟨rest, queue⟩, different, task, live,
        by omega, uses, forkDir, failed⟩)
    · change ((s.userToSysStats.listDel child).forkInto child).2.mm.fault = false
        at noFault
      rw [after] at noFault
      have maps := Memory.reserveData_done reserved
        (forkSpace_spec (s.userToSysStats.listDel child) _ _ noFault).1
      have counted := maps.freeFrames
      change s.mm.freeFrames = mm.freeFrames + s.forkPages at counted
      refine Or.inr (Or.inr ⟨child, ⟨rest, queue⟩, different, others, own, live,
        by omega, ?_⟩)
      change ForkedSpace s s.chosenDir
        ((s.userToSysStats.listDel child).forkInto child).2.mm
      rw [after]
      exact s.forkedSpace_of_noFault paged maps noFault

/-- The process that a fork adds to the live ones is its child. -/
theorem fork_born (orderly : s.Orderly) (mapped : s.Mapped) (paged : s.Paged)
    (taken : s.step (.syscall .fork) = some s') (dead : s.live child = false)
    (born : s'.live child = true) : ForkSucceeds s child s' := by
  rcases fork_outcome orderly mapped paged taken with
    ⟨_, refused⟩ | ⟨_, failed⟩ | ⟨other, succeeded⟩
  · rw [refused] at born
    change s.live child = true at born
    rw [dead] at born
    cases born
  · rw [failed.live, dead] at born
    cases born
  · by_cases same : child = other
    · rw [same]
      exact succeeded
    · rw [succeeded.live, Function.update_of_ne same, dead] at born
      cases born

/-! ## The child's table -/

/-- Above the code, the child's table holds the pages that the call mapped and
no others. -/
def HoldsOwnPages (s : Kernel) (child : TaskId) (s' : Kernel) : Prop :=
  ∀ page, pagLogInitData ≤ page → page < totalPages →
    ((s'.mm.pagusrTable (s'.task child).dirPagesBaseAddr page).present = true ↔
      s.ChildPage page)

/-- The chosen table maps nothing above the child's pages, but for pages of the
window, which the call unmaps in its caller's table. -/
def NothingLeft (s : Kernel) : Prop :=
  ∀ page, pagLogInitData + s.forkPages ≤ page → page < totalPages →
    (s.mm.pagusrTable s.chosenDir page).present = true →
      s.chosenDir = s.parentDir ∧ s.WindowPage page

theorem ForkSucceeds.entry (succeeded : ForkSucceeds s child s') (page : Nat) :
    s'.mm.pagusrTable (s'.task child).dirPagesBaseAddr page =
      s.forkedEntry s.chosenDir s.chosenDir page := by
  rw [succeeded.own.dirPagesBaseAddr]
  exact succeeded.forked.table s.chosenDir page

theorem ForkSucceeds.holdsOwnPages_iff (succeeded : ForkSucceeds s child s') :
    HoldsOwnPages s child s' ↔ NothingLeft s := by
  constructor
  · intro holds page above inTable present
    by_contra outside
    have kept : s'.mm.pagusrTable (s'.task child).dirPagesBaseAddr page =
        s.mm.pagusrTable s.chosenDir page := by
      rw [succeeded.entry, forkedEntry, if_neg outside, if_neg (by omega),
        if_neg (by omega)]
    have own := (holds page (by omega) inTable).mp (kept ▸ present)
    omega
  · intro nothing page high inTable
    rw [succeeded.entry, forkedEntry]
    by_cases window : s.chosenDir = s.parentDir ∧ s.WindowPage page
    · rw [if_pos window]
      exact iff_of_false (by simp) (by omega)
    rw [if_neg window]
    by_cases own : s.ChildPage page
    · rw [if_pos ⟨rfl, own⟩]
      exact iff_of_true rfl own
    · rw [if_neg fun both => own both.2, if_neg (by omega)]
      refine iff_of_false (fun present => window ?_) own
      exact nothing page (by omega) inTable present

/-! ## Unused directories over whole runs -/

/-- The last process of a directory exits without heap pages, and every fork
that finds a free PCB finds its frames. -/
def LeavesNothing (s : Kernel) : Event → Prop
  | .syscall .exit => s.users s.parentDir = 1 →
      ∀ page, heapInitPage ≤ page → page < totalPages →
        (s.mm.pagusrTable s.parentDir page).present = false
  | event => ForksComplete s event

theorem LeavesNothing.complete {event : Event} (leaves : LeavesNothing s event) :
    ForksComplete s event := by
  unfold LeavesNothing at leaves
  split at leaves
  · trivial
  · exact leaves

/-- A directory that no live process uses maps no data or heap page. -/
def UnusedEmpty (s : Kernel) : Prop :=
  ∀ i, s.users i = 0 → ∀ page, pagLogInitData ≤ page → page < totalPages →
    (s.mm.pagusrTable i page).present = false

theorem UnusedEmpty.exit {mm : Memory} (empty : UnusedEmpty s) (mapped : s.Mapped)
    (orderly : s.Orderly) (counted : ∀ i, s.mm.dirCounter i = s.users i)
    (leaves : LeavesNothing s (.syscall .exit)) (tables : SameTables s.mm mm)
    (region : ∀ t, SameRegion (s.task t) (s'.task t))
    (live : s'.live = Function.update s.live s.current false)
    (after : s'.mm = releaseDir mm s.parentDir) (noFault : s'.mm.fault = false) :
    UnusedEmpty s' := by
  intro i unused page high inTable
  have change := users_exited region live orderly.settled.currentLive i
  rw [after] at noFault ⊢
  obtain ⟨edit, given⟩ := Memory.releaseDir_spec mm s.parentDir noFault
  have given := given (tidy_congr tables mapped.tidy)
  by_cases own : s.parentDir = i
  · subst own
    have last : s.users s.parentDir = 1 := by
      change s'.users s.parentDir + (if s.parentDir = s.parentDir then 1 else 0) =
        _ at change
      rw [unused, if_pos rfl] at change
      exact change.symm
    have counter : mm.dirCounter s.parentDir = 1 := by
      rw [tables.dirCounter, counted, last]
      rfl
    rw [if_pos counter] at given
    by_cases data : page < heapInitPage
    · have gone : (releaseDir mm s.parentDir).holdings.held (s.parentDir, page) =
          none := by
        rw [given, Library.Holdings.surrenderAll_held, if_pos]
        refine Memory.mem_dataPlaces.mpr ⟨rfl, high, ?_⟩
        have bounds : heapInitPage = pagLogInitData + numPagData := by decide
        dsimp only
        omega
      by_contra present
      rw [Bool.not_eq_false] at present
      rw [Memory.held_eq_some _ _ high present] at gone
      cases gone
    · have above := leaves last page (by omega) inTable
      have bounds : heapInitPage = pagLogInitData + numPagData := by decide
      rw [edit.table _ _ fun _ touched => by omega]
      change (mm.pagusrTable s.parentDir page).present = false
      rw [tables.pagusrTable]
      exact above
  · rw [edit.table _ _ fun same => absurd same.symm own]
    change (mm.pagusrTable i page).present = false
    rw [tables.pagusrTable]
    refine empty i ?_ page high inTable
    change (s.task s.current).dirPagesBaseAddr ≠ i at own
    rw [unused, if_neg own] at change
    exact change.symm

theorem UnusedEmpty.step {event : Event} (empty : UnusedEmpty s)
    (orderly : s.Orderly) (mapped : s.Mapped) (paged : s.Paged)
    (counted : ∀ i, s.mm.dirCounter i = s.users i) (leaves : LeavesNothing s event)
    (taken : s.step event = some s') : UnusedEmpty s' := by
  have noFault := fault_of_step taken
  have parentUsed : s.users s.parentDir ≠ 0 := users_parentDir orderly
  cases handle_space orderly (handle_of_step taken) with
  | same space =>
      intro i unused page high inTable
      rw [users_same (fun t => (space.region t).dirPagesBaseAddr) space.live]
        at unused
      rw [space.tables.pagusrTable]
      exact empty i unused page high inTable
  | exited tables region live after =>
      exact empty.exit mapped orderly counted leaves tables region live after
        noFault
  | forkFailed forkTaken failed live after =>
      have enough := leaves.complete (List.ne_nil_of_mem forkTaken.member)
      rw [after] at noFault
      obtain ⟨k, _, short, few, _⟩ := Memory.reserveData_failed failed noFault
        (Tidy.withUses mapped.tidy _)
      change s.mm.freeFrames = k at few
      omega
  | @forked child _ _ _ _ forkTaken _ live _ =>
      have dead := orderly.dead forkTaken.member
      have succeeded := fork_born orderly mapped paged taken dead (by simp [live])
      intro i unused page high inTable
      rw [users_born dead succeeded.others succeeded.own.dirPagesBaseAddr live]
        at unused
      dsimp only at unused
      have notChosen : ¬ i = s.chosenDir := by
        intro same
        rw [if_pos same.symm] at unused
        omega
      rw [if_neg (Ne.symm notChosen)] at unused
      have notParent : ¬ i = s.parentDir := fun same => parentUsed (same ▸ unused)
      rw [succeeded.forked.table, forkedEntry, if_neg fun both => notParent both.1,
        if_neg fun both => notChosen both.1, if_neg fun both => notChosen both.1]
      exact empty i unused page high inTable
  | cloned member _ others own live after =>
      intro i unused page high inTable
      rw [users_born (orderly.dead member) others
        own.dirPagesBaseAddr live] at unused
      rw [after]
      exact empty i (by omega) page high inTable
  | moved others own live after =>
      have parent : 0 ≤ s.currentTask.heapPages := mapped.nonneg s.current
      rw [after] at noFault
      obtain ⟨edit, _⟩ := (sysSbrk_effect _ _ _ parent noFault).edit parent
        mapped.tidy noFault
      intro i unused page high inTable
      rw [users_same (moved_dirs others own) live] at unused
      have notParent : i ≠ s.parentDir := fun same => parentUsed (same ▸ unused)
      rw [after, edit.table _ _ fun same => absurd same notParent]
      exact empty i unused page high inTable

theorem boot_unusedEmpty (image : BootImage) : UnusedEmpty (boot image) := by
  intro i unused page high _
  have notUser : i ≠ 1 := by
    rintro rfl
    have counted := boot_counted image 1
    rw [unused, (boot_space image).2] at counted
    change bootUses 1 = 0 at counted
    exact absurd counted (by decide)
  rw [boot_table, if_neg notUser, Memory.initTablePages]
  have bounds : numPagKernel < pagLogInitData := by decide
  rw [if_neg (by omega)]

/-- In a run whose processes leave nothing behind, unused directories are
empty. -/
theorem unusedEmpty_of_reachable (run : ReachableUnder LeavesNothing image s) :
    UnusedEmpty s ∧ ∀ i, s.mm.dirCounter i = s.users i := by
  have complete : ∀ {state}, ReachableUnder LeavesNothing image state →
      ∀ i, state.mm.dirCounter i = state.users i := fun run =>
    counted_of_complete (run.mono fun _ _ => LeavesNothing.complete)
  refine ⟨?_, complete run⟩
  induction run with
  | start => exact boot_unusedEmpty image
  | step earlier leaves taken inductionHypothesis =>
      have plain : Reachable image _ := earlier.mono fun _ _ _ => trivial
      exact inductionHypothesis.step (orderly_of_reachable plain)
        (mapped_of_reachable plain) (paged_of_reachable plain) (complete earlier)
        leaves taken

theorem UnusedEmpty.nothingLeft (empty : UnusedEmpty s)
    (counted : ∀ i, s.mm.dirCounter i = s.users i) (dead : s.live child = false) :
    NothingLeft s := by
  intro page above inTable present
  obtain ⟨i, nobody⟩ := exists_unused dead
  have zero : s.mm.dirCounter i = 0 := by
    rw [counted, nobody]
    rfl
  have found : ∃ j, s.unusedDir = some j := by
    cases first : s.unusedDir with
    | some j => exact ⟨j, rfl⟩
    | none =>
        have used := List.find?_eq_none.mp first i (List.mem_finRange i)
        exact absurd zero (by simpa using used)
  obtain ⟨j, isFirst⟩ := found
  have chosen : s.chosenDir = j := congrArg (Option.getD · s.parentDir) isFirst
  have unused : s.users j = 0 := by
    have counter := counted j
    have none : s.mm.dirCounter j = 0 := by
      simpa using List.find?_some isFirst
    omega
  rw [chosen, empty j unused page (by omega) inTable] at present
  cases present

/-- A child's table holds its own pages and no others, exactly if its directory
was empty above them; and it was in every run whose processes leave nothing in
the directories that they use last. -/
theorem child_holds_own_pages (run : Reachable image s)
    (taken : s.step (.syscall .fork) = some s') (dead : s.live child = false)
    (born : s'.live child = true) :
    (HoldsOwnPages s child s' ↔ NothingLeft s) ∧
      (ReachableUnder LeavesNothing image s → HoldsOwnPages s child s') := by
  have succeeded := fork_born (orderly_of_reachable run) (mapped_of_reachable run)
    (paged_of_reachable run) taken dead born
  refine ⟨succeeded.holdsOwnPages_iff, fun clean => ?_⟩
  obtain ⟨empty, counted⟩ := unusedEmpty_of_reachable clean
  exact succeeded.holdsOwnPages_iff.mpr (empty.nothingLeft counted dead)

theorem child_holds_own_pages_booted : ∃ s',
    (boot sampleImage).step (.syscall .fork) = some s' ∧
      HoldsOwnPages (boot sampleImage) 2 s' := by
  have possible : ((boot sampleImage).step (.syscall .fork)).isSome = true ∧
      ((boot sampleImage).step (.syscall .fork)).all (·.live 2) = true ∧
      (boot sampleImage).live 2 = false := by
    decide +kernel
  obtain ⟨some_, born, dead⟩ := possible
  obtain ⟨s', taken⟩ := Option.isSome_iff_exists.mp some_
  rw [taken, Option.all_some] at born
  exact ⟨s', taken, (child_holds_own_pages .start taken dead born).2 .start⟩

/-- The first process makes a child, moves its break and exits; the child's own
child gets its directory, and with it the heap page. -/
theorem heap_page_inherited : ∃ s s' child, Reachable sampleImage s ∧
    s.step (.syscall .fork) = some s' ∧ s.live child = false ∧
      s'.live child = true ∧ ¬ HoldsOwnPages s child s' := by
  let last := Library.lastState step (boot sampleImage)
    [.syscall .fork, .syscall (.sbrk 1), .syscall .exit, .resume]
  have run : Reachable sampleImage last :=
    Library.Reach.lastState fun _ _ _ => trivial
  have possible : (last.step (.syscall .fork)).isSome = true ∧
      (last.step (.syscall .fork)).all (·.live 3) = true ∧
      last.live 3 = false := by
    decide +kernel
  have left : last.chosenDir = 1 ∧ last.parentDir = 2 ∧ last.forkPages = 20 ∧
      (last.mm.pagusrTable 1 284).present = true := by
    decide +kernel
  obtain ⟨some_, born, dead⟩ := possible
  obtain ⟨chosen, parent, pages, present⟩ := left
  obtain ⟨s', taken⟩ := Option.isSome_iff_exists.mp some_
  rw [taken, Option.all_some] at born
  have succeeded := fork_born (orderly_of_reachable run) (mapped_of_reachable run)
    (paged_of_reachable run) taken dead born
  refine ⟨last, s', 3, run, taken, dead, born, ?_⟩
  rw [succeeded.holdsOwnPages_iff]
  intro nothing
  have own := (nothing 284 (by rw [pages]; decide) (by decide)
    (by rw [chosen]; exact present)).1
  rw [chosen, parent] at own
  exact absurd own (by decide)

end Kernel

end Zeos
