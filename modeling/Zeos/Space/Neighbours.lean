import Zeos.Space.Forks

/-!
# What a fork does to the processes that exist

`sys_fork` writes to the table of the directory it chose, to the window in its
caller's table, and to the frames it takes.  The processes that exist notice
nothing as long as none of the three is theirs: a counted-down directory may
still be in use, a thread may have mapped heap pages where its sibling's window
lies, and a dangling heap page may map a frame that counts as free.
-/

namespace Zeos

namespace Memory

variable {mm mm' : Memory} {dir : DirId} {count : Nat}

/-! ## Pages that are given back -/

theorem givePage_ram (dir : DirId) (mm : Memory) (page : Nat) :
    (givePage dir mm page).ram = mm.ram := by
  unfold givePage delSsPag
  rw [setEntry_ram]
  unfold freeFrame
  split_ifs <;> rfl

theorem givePages_ram (dir : DirId) (pages : List Nat) (mm : Memory) :
    (pages.foldl (givePage dir) mm).ram = mm.ram := by
  induction pages generalizing mm with
  | nil => rfl
  | cons page pages inductionHypothesis =>
      rw [List.foldl_cons, inductionHypothesis, givePage_ram]

theorem Maps.inTable {first page : Nat} (maps : Maps dir first count mm mm')
    (range : Maps.Range first count page) : page < totalPages := by
  induction maps with
  | done => omega
  | @next first _ _ _ _ _ _ _ _ inductionHypothesis =>
      by_cases isFirst : page = first
      · omega
      · exact inductionHypothesis (by omega)

/-- The entries of pages that are given back are zero. -/
theorem givePages_table (dir : DirId) (pages : List Nat)
    (inTable : ∀ page ∈ pages, page < totalPages) (mm : Memory) (d : DirId)
    (p : Nat) : (pages.foldl (givePage dir) mm).pagusrTable d p =
      if d = dir ∧ p ∈ pages then {} else mm.pagusrTable d p := by
  induction pages generalizing mm with
  | nil => rw [if_neg (by simp)]; rfl
  | cons page pages inductionHypothesis =>
      have bound := inTable page List.mem_cons_self
      have indexed : InTable page := by constructor <;> omega
      rw [List.foldl_cons, inductionHypothesis fun other member =>
        inTable other (List.mem_cons_of_mem page member)]
      unfold givePage delSsPag
      rw [setEntry_table indexed, (freeFrame_table mm _).1]
      by_cases later : d = dir ∧ p ∈ pages
      · rw [if_pos later, if_pos ⟨later.1, List.mem_cons_of_mem page later.2⟩]
      · rw [if_neg later]
        apply if_congr _ rfl rfl
        rw [List.mem_cons, Int.ofNat_inj]
        constructor
        · intro first
          exact ⟨first.1, Or.inl first.2⟩
        · intro both
          refine ⟨both.1, both.2.resolve_right fun member => ?_⟩
          exact later ⟨both.1, member⟩

/-- A failed reservation leaves the pages that it tried unmapped, and nothing
else. -/
theorem reserveData_failed_table (failed : reserveData dir count 0 mm = (false, mm'))
    (noFault : mm'.fault = false) :
    (∀ d p, mm'.pagusrTable d p =
      if d = dir ∧ Maps.Range pagLogInitData mm.freeFrames p then {}
      else mm.pagusrTable d p) ∧ mm'.ram = mm.ram := by
  obtain ⟨_, ⟨mm₁, finished, _⟩ | ⟨k, mm₁, _, empty, maps, stopped⟩⟩ :=
    reserveData_cases dir count 0 mm (by rw [failed]; exact noFault)
  · rw [failed] at finished
    cases finished
  · rw [failed, Nat.zero_add, releaseData_eq] at stopped
    obtain ⟨-, rfl⟩ := Prod.mk.inj stopped
    have counted : mm.freeFrames = k := by
      have sum := maps.freeFrames
      omega
    have inTable : ∀ page ∈ dataPages k, page < totalPages := fun page member =>
      maps.inTable (mem_dataPages.mp member)
    rw [counted]
    refine ⟨fun d p => ?_, (givePages_ram dir _ mm₁).trans maps.ram⟩
    rw [givePages_table dir _ inTable]
    by_cases own : d = dir ∧ Maps.Range pagLogInitData k p
    · rw [if_pos own, if_pos ⟨own.1, mem_dataPages.mpr own.2⟩]
    · rw [if_neg own, if_neg fun both => own ⟨both.1, mem_dataPages.mp both.2⟩]
      exact maps.table d p fun same range => own ⟨same, range⟩

end Memory

namespace Kernel

open Memory (Maps pageEntry)

variable {s s' : Kernel} {child : TaskId} {image : BootImage}

/-- The tables of the live processes, and the contents of the user pages that
they map, are the same. -/
structure Undisturbed (s s' : Kernel) : Prop where
  table : ∀ t, s.live t = true → ∀ page,
    s'.mm.pagusrTable (s.task t).dirPagesBaseAddr page =
      s.mm.pagusrTable (s.task t).dirPagesBaseAddr page
  contents : ∀ t, s.live t = true → ∀ page, pagLogInitCode ≤ page →
    (s.mm.pagusrTable (s.task t).dirPagesBaseAddr page).present = true →
      ∀ offset, s'.mm.ram (s.mm.getFrame (s.task t).dirPagesBaseAddr page) offset =
        s.mm.ram (s.mm.getFrame (s.task t).dirPagesBaseAddr page) offset

/-- No live process uses the directory that the child will get. -/
def ChildAlone (s : Kernel) : Prop :=
  ∀ t, s.live t = true → (s.task t).dirPagesBaseAddr ≠ s.chosenDir

/-- The entries through which the call would write are zero. -/
def WindowEmpty (s : Kernel) : Prop :=
  ∀ page, s.WindowPage page → s.mm.pagusrTable s.parentDir page = {}

/-- No live process maps a frame that the call would take. -/
def FramesUnmapped (s : Kernel) : Prop :=
  ∀ t, s.live t = true → ∀ page, pagLogInitCode ≤ page →
    (s.mm.pagusrTable (s.task t).dirPagesBaseAddr page).present = true →
      s.mm.getFrame (s.task t).dirPagesBaseAddr page ∉ s.takenFrames

/-- A fork that is refused; that fails, and tries pages of an unused directory
or pages with zero entries; or that takes an unused directory, unmapped frames
and an empty window. -/
def SparesOthers (s : Kernel) : Prop :=
  s.queue .freequeue = [] ∨
    (s.mm.freeFrames < s.forkPages ∧ (s.ChildAlone ∨
      ∀ page, Maps.Range pagLogInitData s.mm.freeFrames page →
        s.mm.pagusrTable s.chosenDir page = {})) ∨
    (s.forkPages ≤ s.mm.freeFrames ∧ s.ChildAlone ∧ s.WindowEmpty ∧
      s.FramesUnmapped)

/-- A failing fork spares the others exactly if it tries no page of theirs. -/
theorem ForkFails.undisturbed_iff (failed : ForkFails s child s')
    (noFault : s'.mm.fault = false) :
    Undisturbed s s' ↔ s.ChildAlone ∨
      ∀ page, Maps.Range pagLogInitData s.mm.freeFrames page →
        s.mm.pagusrTable s.chosenDir page = {} := by
  obtain ⟨uses, _, reserved⟩ := failed.reserved
  obtain ⟨tables, ram⟩ := Memory.reserveData_failed_table reserved noFault
  change s'.mm.ram = s.mm.ram at ram
  change ∀ d p, s'.mm.pagusrTable d p =
    if d = s.chosenDir ∧ Maps.Range pagLogInitData s.mm.freeFrames p then {}
    else s.mm.pagusrTable d p at tables
  constructor
  · intro undisturbed
    by_cases alone : s.ChildAlone
    · exact Or.inl alone
    · refine Or.inr fun page range => ?_
      unfold ChildAlone at alone
      push Not at alone
      obtain ⟨t, live, uses⟩ := alone
      have same := undisturbed.table t live page
      rw [uses, tables, if_pos ⟨rfl, range⟩] at same
      exact same.symm
  · intro spared
    refine ⟨fun t live page => ?_, fun t live page _ _ offset => by rw [ram]⟩
    rw [tables]
    split_ifs with tried
    · rcases spared with alone | empty
      · exact absurd tried.1 (alone t live)
      · rw [tried.1, empty page tried.2]
    · rfl

theorem ForkSucceeds.undisturbed (succeeded : ForkSucceeds s child s')
    (alone : s.ChildAlone) (window : s.WindowEmpty) (unmapped : s.FramesUnmapped) :
    Undisturbed s s' := by
  refine ⟨fun t live page => ?_, fun t live page user present offset => ?_⟩
  · have notChosen := alone t live
    rw [succeeded.forked.table, forkedEntry]
    by_cases own : (s.task t).dirPagesBaseAddr = s.parentDir ∧ s.WindowPage page
    · rw [if_pos own, own.1, window page own.2]
    · rw [if_neg own, if_neg fun both => notChosen both.1,
        if_neg fun both => notChosen both.1]
  · rw [succeeded.forked.spared _ (unmapped t live page user present)]

/-- A fork of a process does not disturb the live processes, unless it writes to
a table, a window or a frame that one of them uses. -/
theorem fork_undisturbing (run : Reachable image s)
    (taken : s.step (.syscall .fork) = some s') (spares : s.SparesOthers) :
    Undisturbed s s' := by
  have orderly := orderly_of_reachable run
  rcases fork_outcome orderly (mapped_of_reachable run)
    (paged_of_reachable run) taken with
    ⟨_, refused⟩ | ⟨child, failed⟩ | ⟨child, succeeded⟩
  · rw [refused]
    exact ⟨fun _ _ _ => rfl, fun _ _ _ _ _ _ => rfl⟩
  · obtain ⟨rest, queue⟩ := failed.first
    have few := failed.few
    rcases spares with none | ⟨_, spared⟩ | ⟨enough, _⟩
    · rw [queue] at none
      cases none
    · exact (failed.undisturbed_iff (fault_of_step taken)).mpr spared
    · omega
  · obtain ⟨rest, queue⟩ := succeeded.first
    have enough := succeeded.enough
    rcases spares with none | ⟨few, _⟩ | ⟨_, alone, window, unmapped⟩
    · rw [queue] at none
      cases none
    · omega
    · exact succeeded.undisturbed alone window unmapped

/-- At boot the frames of all mapped user pages are in use. -/
theorem boot_framesUnmapped (image : BootImage) :
    (boot image).FramesUnmapped := by
  intro t _ page user present taken
  have free := (Memory.mem_freeList.mp (List.mem_of_mem_take taken)).2
  have bounds : numPagKernel = 256 ∧ pagLogInitCode = 256 ∧ heapInitPage = 284 ∧
      numPagCode + numPagData = 28 := by decide
  have notKernel : Memory.initTablePages image.taskPage page = {} :=
    if_neg (by omega)
  have userPage : ((boot image).task t).dirPagesBaseAddr = 1 ∧
      page < heapInitPage := by
    rw [boot_table, notKernel] at present
    split_ifs at present with isUser
    refine ⟨isUser, ?_⟩
    by_contra high
    rw [Memory.userTable, if_neg fun both => high both.2, notKernel] at present
    cases present
  have used : (boot image).mm.physMem ((boot image).mm.getFrame
      ((boot image).task t).dirPagesBaseAddr page) = .usedFrame := by
    rw [Memory.getFrame, boot_table, if_pos userPage.1, Memory.userTable,
      if_pos ⟨user, userPage.2⟩, boot_used]
    dsimp only
    omega
  rw [free] at used
  cases used

theorem fork_undisturbing_booted : ∃ s',
    (boot sampleImage).step (.syscall .fork) = some s' ∧
      Undisturbed (boot sampleImage) s' := by
  have possible : ((boot sampleImage).step (.syscall .fork)).isSome = true := by
    decide +kernel
  have enough : (boot sampleImage).forkPages ≤
      (boot sampleImage).mm.freeFrames := by decide +kernel
  have alone : (boot sampleImage).ChildAlone := by
    unfold ChildAlone
    decide +kernel
  have window : (boot sampleImage).WindowEmpty := by
    intro page range
    have pages : (boot sampleImage).forkPages = 20 := by decide +kernel
    have bounds : pagLogInitData = 264 ∧ heapInitPage = 284 := by decide
    rw [boot_dataEntry _ _ (by omega), if_neg (by omega)]
  obtain ⟨s', taken⟩ := Option.isSome_iff_exists.mp possible
  exact ⟨s', taken, fork_undisturbing .start taken
    (Or.inr (Or.inr ⟨enough, alone, window, boot_framesUnmapped _⟩))⟩

/-- The first process makes a thread and moves its own break; its quantum ends,
and the thread forks through a window that lies over the heap page. -/
theorem window_over_heap : ∃ s s', Reachable sampleImage s ∧
    s.step (.syscall .fork) = some s' ∧ ¬ Undisturbed s s' := by
  let last := Library.lastState step (boot sampleImage)
    ([.syscall (.clone 0x100000 0x110000), .syscall (.sbrk 1)] ++
      List.replicate 10 .clock ++ [.resume])
  have run : Reachable sampleImage last :=
    Library.Reach.lastState fun _ _ _ => trivial
  have possible : (last.step (.syscall .fork)).isSome = true ∧
      (last.step (.syscall .fork)).all
        (fun s' => ! (s'.mm.pagusrTable 1 284).present) = true := by
    decide +kernel
  have before : last.live 1 = true ∧ (last.task 1).dirPagesBaseAddr = 1 ∧
      (last.mm.pagusrTable 1 284).present = true := by
    decide +kernel
  obtain ⟨some_, cleared⟩ := possible
  obtain ⟨live, dir, present⟩ := before
  obtain ⟨s', taken⟩ := Option.isSome_iff_exists.mp some_
  rw [taken, Option.all_some, Bool.not_eq_true'] at cleared
  refine ⟨last, s', run, taken, fun undisturbed => ?_⟩
  have same := undisturbed.table 1 live 284
  rw [dir] at same
  rw [same, present] at cleared
  cases cleared

end Kernel

end Zeos
