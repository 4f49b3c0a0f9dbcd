import Zeos.Library.Caches
import Zeos.Sched.Turns
import Zeos.Space.Neighbours

/-!
# Cached translations

The processor may keep every translation that it used since `%cr3` was last
written, and only a write to `%cr3` makes it forget them.  `task_switch_asm`
writes `%cr3`, and so does `sys_fork` after it has copied the data pages;
`sys_sbrk` and the error path of `sys_fork` change entries of the current table
and do not.
-/

namespace Zeos

/-- The translations that the processor may have kept. -/
abbrev Tlb := List (Nat × PageTableEntry)

namespace Memory

/-- An access to a page of the current table: a translation is used if the page
is mapped. -/
def lookUp (mm : Memory) (cr3 : DirId) (tlb : Tlb) (page : Nat) : Tlb :=
  if page < totalPages ∧ (mm.pagusrTable cr3 page).present then
    (page, mm.pagusrTable cr3 page) :: tlb
  else
    tlb

/-- The window of a round of the copying loop is open. -/
def openWindow (mm : Memory) (ptChild ptParent : DirId) (distance pg : Nat) :
    Memory :=
  mm.setSsPag ptParent (pg + distance : Nat) (mm.getFrame ptChild pg)

/-- One round of the copying loop of `sys_fork`, with the translations that it
uses: those of the page that is copied and of the window. -/
def windowRound (cr3 ptChild ptParent : DirId) (distance : Nat)
    (loop : Memory × Tlb) (pg : Nat) : Memory × Tlb :=
  let opened := loop.1.openWindow ptChild ptParent distance pg
  (copyThroughWindow cr3 ptChild ptParent distance loop.1 pg,
    opened.lookUp cr3 (opened.lookUp cr3 loop.2 pg) (pg + distance))

/-- The first `done` rounds. -/
def windowRounds (cr3 ptChild ptParent : DirId) (pages done : Nat)
    (loop : Memory × Tlb) : Memory × Tlb :=
  (List.range done).foldl
    (fun loop k =>
      windowRound cr3 ptChild ptParent pages loop (numPagKernel + numPagCode + k))
    loop

end Memory

namespace Kernel

/-- The reservation of `sys_fork` for the PCB `child`. -/
def reserveChild (s : Kernel) (child : TaskId) : Bool × Memory :=
  let s := ((s.copyUnion child).allocateDIR child).2
  Memory.reserveData (s.task child).dirPagesBaseAddr s.forkPages 0 s.mm

/-- The child's directory, and memory when the copying loop of `sys_fork`
begins, if the call gets that far. -/
def copyingFork (s : Kernel) : Option (DirId × Memory) :=
  if s.listEmpty .freequeue then
    none
  else
    match s.listFirst .freequeue with
    | none => none
    | some child =>
        let s := s.listDel child
        let ptParent := s.currentTask.dirPagesBaseAddr
        let ptChild :=
          (((s.copyUnion child).allocateDIR child).2.task child).dirPagesBaseAddr
        match s.reserveChild child with
        | (false, _) => none
        | (true, mm) =>
            let mm := mm.sharePages ptChild ptParent 0 numPagKernel
            some (ptChild, mm.sharePages ptChild ptParent pagLogInitCode numPagCode)

/-- Whether `%cr3` was written in the step from `s` to `s'`. -/
def setsCr3 (s : Kernel) (event : Event) (s' : Kernel) : Bool :=
  decide (s'.mode = .switched) ||
    (decide (event = .syscall .fork) && s.userToSysStats.copyingFork.isSome)

end Kernel

/-- The kernel's state and the translations that may be cached. -/
structure Cached where
  kernel : Kernel
  tlb : Tlb

/-- What happens next: the running code, or the kernel on its behalf, uses a
page, or the kernel is entered. -/
inductive Activity where
  | access (page : Nat)
  | event (event : Event)

namespace Cached

/-- One step of the system with its cache. -/
def step (c : Cached) : Activity → Option Cached
  | .access page =>
      if c.kernel.mode = .user then
        some { c with tlb := c.kernel.mm.lookUp c.kernel.cr3 c.tlb page }
      else
        none
  | .event event =>
      (c.kernel.step event).map fun s' =>
        { kernel := s', tlb := if c.kernel.setsCr3 event s' then [] else c.tlb }

/-- The system when `main` enters user mode; `set_cr3` was just called. -/
def boot (image : BootImage) : Cached := ⟨Zeos.boot image, []⟩

/-- No access by user code can use a translation that differs from the table. -/
def Coherent (c : Cached) : Prop :=
  Library.Current (c.kernel.mm.pagusrTable c.kernel.cr3) c.tlb

/-- No round of the copying loop of a fork writes through a translation of the
window that differs from the table. -/
def WindowsFresh (c : Cached) : Prop :=
  ∀ ptChild mm, c.kernel.userToSysStats.copyingFork = some (ptChild, mm) →
    ∀ k, k < c.kernel.forkPages →
      let loop := Memory.windowRounds c.kernel.cr3 ptChild c.kernel.parentDir
        c.kernel.forkPages k (mm, c.tlb)
      let pg := numPagKernel + numPagCode + k
      let opened := loop.1.openWindow ptChild c.kernel.parentDir
        c.kernel.forkPages pg
      ∀ copy ∈ opened.lookUp c.kernel.cr3 loop.2 pg,
        copy.1 = pg + c.kernel.forkPages →
          opened.pagusrTable c.kernel.cr3 copy.1 = copy.2

end Cached

/-! ## The entries that `sys_sbrk` writes -/

section Sbrk

variable {t t' : TaskStruct} {mm mm' : Memory} {increment result : Int}

/-- The pages whose entries a call writes: the first page of a new heap, the
pages that a growing call maps, one page more if it runs out of frames, and the
pages that a shrinking call unmaps. -/
inductive SbrkWrites (increment : Int) (t : TaskStruct) (mm : Memory) : Nat → Prop
  | opened :
      t.heap = 0 →
      0 ≤ increment →
      mm.freeFrames ≠ 0 →
      SbrkWrites increment t mm heapInitPage
  | grown {page : Nat} :
      newPages increment (openHeap t mm).1 ≤ (openHeap t mm).2.freeFrames →
      Memory.Maps.Range (heapEnd (openHeap t mm).1)
        (newPages increment (openHeap t mm).1) page →
      SbrkWrites increment t mm page
  | short {page : Nat} :
      (openHeap t mm).2.freeFrames < newPages increment (openHeap t mm).1 →
      (openHeap t mm).2.freeFrames ≠ 0 →
      Memory.Maps.Range (heapEnd (openHeap t mm).1)
        ((openHeap t mm).2.freeFrames + 1) page →
      SbrkWrites increment t mm page
  | shrunk {page : Nat} :
      t.heap ≠ 0 →
      heapInitPage + t.heapPages - pagesBack increment t < page →
      page ≤ heapInitPage + t.heapPages →
      SbrkWrites increment t mm page

/-- The first page of a new heap is the only one that is written before the
break moves. -/
theorem openHeap_spares {page : Nat} (growing : 0 ≤ increment)
    (spared : ¬ SbrkWrites increment t mm page) (d : DirId) :
    (openHeap t mm).2.pagusrTable d page = mm.pagusrTable d page := by
  rcases openHeap_cases t mm with ⟨same, _⟩ | ⟨missing, mm₁, first, maps⟩
  · rw [same]
  · have counted := maps.freeFrames
    rw [first]
    refine maps.table d page fun _ range => spared ?_
    have isFirst : page = heapInitPage := by omega
    rw [isFirst]
    exact .opened missing growing (by omega)

/-- A call keeps all other entries. -/
theorem SbrkEffect.spares (effect : SbrkEffect increment t mm result t' mm')
    (nonneg : 0 ≤ t.heapPages) (noFault : mm'.fault = false) {page : Nat}
    (spared : ¬ SbrkWrites increment t mm page) (d : DirId) :
    mm'.pagusrTable d page = mm.pagusrTable d page := by
  cases effect with
  | refused _ _ => rfl
  | @grown t₁ mm₁ _ growing opened maps =>
      have counted := maps.freeFrames
      have before := openHeap_spares growing spared d
      rw [opened] at before
      rw [← before]
      refine maps.table d page fun _ range => spared (.grown ?_ ?_)
      · rw [opened]
        dsimp only
        omega
      · rw [opened]
        exact range
  | @short t₁ mm₁ mm₂ _ k opened maps empty few released =>
      have growing := (pos_of_newPages (Nat.ne_zero_of_lt few)).le
      have counted := maps.freeFrames
      have before := openHeap_spares growing spared d
      have ending := heapEnd_eq (openHeap_pcb opened nonneg).1
      have outside : k ≠ 0 → ¬ Memory.Maps.Range (heapEnd t₁) (k + 1) page := by
        intro some_ range
        refine spared (.short ?_ ?_ ?_)
        all_goals rw [opened]
        · dsimp only
          omega
        · dsimp only
          omega
        · have enough : mm₁.freeFrames = k := by omega
          rw [enough]
          exact range
      rw [opened] at before
      rw [← before]
      subst released
      rw [releasePages_table k _ mm₂ noFault]
      dsimp only
      rw [if_neg fun cleared => outside (by omega) (by omega)]
      exact maps.table d page fun _ range => outside (by omega) (by omega)
  | shrunk _ heap released =>
      subst released
      rw [releasePages_table _ _ _ noFault]
      dsimp only
      exact if_neg fun cleared => spared (.shrunk heap cleared.2.1 cleared.2.2)

end Sbrk

namespace Kernel

open Memory (Maps)

variable {s s' : Kernel} {event : Event} {child : TaskId} {image : BootImage}

/-! ## When `%cr3` is kept -/

/-- A step that ends without a switch ends in the process where it began. -/
theorem Turn.current (turn : Turn s event s') (mode : s'.mode = .user) :
    s'.current = s.current := by
  cases turn with
  | stays _ view _ _ => exact congrArg View.current view
  | took _ _ _ view _ _ _ => exact congrArg View.current view
  | raised _ _ _ view _ _ _ => exact congrArg View.current view
  | opened _ _ view _ _ _ => exact congrArg View.current view
  | woke _ _ _ _ view _ _ => exact congrArg View.current view
  | destroyed _ _ _ _ released _ _ _ => exact released.current
  | created _ _ _ view _ _ _ _ _ => exact congrArg View.current view
  | recycled _ _ view _ _ _ _ _ => exact congrArg View.current view
  | preempted _ _ _ switched => rw [switched] at mode; cases mode
  | served _ _ _ switched => rw [switched] at mode; cases mode
  | asked _ _ _ _ switched => rw [switched] at mode; cases mode
  | again _ _ _ _ _ switched => rw [switched] at mode; cases mode
  | waited _ _ _ _ _ _ switched => rw [switched] at mode; cases mode
  | exited _ _ _ _ _ _ _ switched => rw [switched] at mode; cases mode

/-- No step changes the directory of the process that makes it. -/
theorem SpaceEffect.currentDir (effect : SpaceEffect s event s') :
    (s'.task s.current).dirPagesBaseAddr = s.parentDir := by
  cases effect with
  | same space => exact (space.region _).dirPagesBaseAddr
  | exited _ region _ _ => exact (region _).dirPagesBaseAddr
  | forkFailed taken _ _ _ =>
      exact (taken.others _ taken.different.symm).dirPagesBaseAddr
  | forked taken _ _ _ =>
      exact (taken.others _ taken.different.symm).dirPagesBaseAddr
  | cloned _ different others _ _ _ =>
      exact (others _ different.symm).dirPagesBaseAddr
  | moved others own _ _ => exact moved_dirs others own _

theorem cr3_of_step (run : Reachable image s) (taken : s.step event = some s')
    (mode : s'.mode = .user) : s'.cr3 = s.cr3 := by
  have orderly := orderly_of_reachable run
  have current := (turn_of_step orderly taken).current mode
  have dir := (handle_space orderly (handle_of_step taken)).currentDir
  have paged : s.cr3 = s.parentDir := paged_of_reachable run
  have pagedAfter : s'.cr3 = (s'.task s'.current).dirPagesBaseAddr :=
    paged_of_reachable (run.step trivial taken)
  rw [pagedAfter, current, dir, paged]

/-- A process that exits does not go on. -/
theorem exit_switches (run : Reachable image s)
    (taken : s.step (.syscall .exit) = some s') : s'.mode = .switched := by
  have orderly := orderly_of_reachable run
  have busy : s.current ≠ s.idleTask := by
    intro idle
    have handled := handle_of_step taken
    rw [handle, if_neg fun able => able.2 idle] at handled
    cases handled
  have settled := (orderly_of_reachable (run.step trivial taken)).settled
  have live := (exit_state orderly busy).2.2.1
  rw [syscall_of_handle (handle_of_step taken)] at live
  cases mode : s'.mode with
  | switched => rfl
  | user =>
      have current := (turn_of_step orderly taken).current mode
      have alive : s'.live s'.current = true := settled.currentLive
      rw [live, current, Function.update_self] at alive
      cases alive

/-! ## The fork behind the copying loop -/

/-- Memory when the copying loop begins. -/
def sharedSpace (s : Kernel) (mm : Memory) : Memory :=
  (mm.sharePages s.chosenDir s.parentDir 0 numPagKernel).sharePages s.chosenDir
    s.parentDir pagLogInitCode numPagCode

/-- The reservation is in the chosen directory. -/
theorem reserveChild_eq (different : child ≠ s.current) :
    ∃ uses, s.reserveChild child =
        Memory.reserveData s.chosenDir s.forkPages 0
          { s.mm with dirCounter := uses } ∧
      (((s.copyUnion child).allocateDIR child).2.task child).dirPagesBaseAddr =
        s.chosenDir ∧
      (s.forkInto child).2.mm = match s.reserveChild child with
        | (false, mm) => mm
        | (true, mm) => s.forkSpace mm s.chosenDir := by
  obtain ⟨dir, uses, _, chosen, task, mm, _, current, cr3⟩ := childState s child
  have isChosen : dir = s.chosenDir := chosen
  subst isChosen
  rw [reserveChild, forkInto]
  dsimp only
  generalize ((s.copyUnion child).allocateDIR child).2 = s₁
    at task mm current cr3
  have ownDir : (s₁.task child).dirPagesBaseAddr = s.chosenDir := by
    rw [task, Function.update_self]
  have parent : s₁.currentTask = s.currentTask := by
    unfold currentTask
    rw [current, task, Function.update_of_ne different.symm]
  have pages : s₁.forkPages = s.forkPages := by
    unfold forkPages
    rw [parent]
  have space : s₁.forkSpace = s.forkSpace := forkSpace_congr parent cr3
  rw [ownDir, pages, mm]
  refine ⟨uses, rfl, rfl, ?_⟩
  generalize Memory.reserveData s.chosenDir s.forkPages 0
    { s.mm with dirCounter := uses } = reserved
  obtain ⟨all, mm₁⟩ := reserved
  cases all with
  | false => rfl
  | true =>
      change s₁.forkSpace mm₁ (s₁.task child).dirPagesBaseAddr = _
      rw [ownDir, space]

/-- What a call of `sys_fork` does after it has found a PCB. -/
theorem copyingFork_eq (orderly : s.Orderly) (free : s.queue .freequeue ≠ [])
    (taken : s.step (.syscall .fork) = some s') :
    ∃ uses reserved, Memory.reserveData s.chosenDir s.forkPages 0
        { s.mm with dirCounter := uses } = reserved ∧
      s.userToSysStats.copyingFork =
        (if reserved.1 then some (s.chosenDir, s.sharedSpace reserved.2)
        else none) ∧
      s'.mm = if reserved.1 then s.forkSpace reserved.2 s.chosenDir
        else reserved.2 := by
  have entered := orderly.userToSysStats
  have emptyIff := entered.refines.listEmpty_iff (q := .freequeue) trivial
  obtain ⟨child, rest, queue⟩ := List.exists_cons_of_ne_nil free
  have different : child ≠ s.current :=
    orderly.settled.away (show child ∈ s.queue .freequeue by simp [queue])
  have first : s.userToSysStats.listFirst .freequeue = some child :=
    entered.refines.listFirst queue
  obtain ⟨uses, reserved, childDir, memory⟩ :=
    reserveChild_eq (s := s.userToSysStats.listDel child) different
  have after : s'.mm =
      ((s.userToSysStats.listDel child).forkInto child).2.mm := by
    rw [← syscall_of_handle (handle_of_step taken), fork_shape orderly queue]
    rfl
  rw [copyingFork, if_neg fun empty => free (emptyIff.mp empty), first, after,
    memory]
  dsimp only
  rw [childDir]
  generalize outcome : (s.userToSysStats.listDel child).reserveChild child =
    result at reserved ⊢
  refine ⟨uses, result, reserved.symm, ?_⟩
  obtain ⟨all, mm⟩ := result
  cases all with
  | false => exact ⟨rfl, rfl⟩
  | true => exact ⟨rfl, rfl⟩

/-- The call reaches its copying loop exactly if it finds a PCB and its
frames. -/
theorem copyingFork_isSome (orderly : s.Orderly)
    (taken : s.step (.syscall .fork) = some s') :
    s.userToSysStats.copyingFork.isSome ↔
      s.queue .freequeue ≠ [] ∧ s.forkPages ≤ s.mm.freeFrames := by
  by_cases free : s.queue .freequeue = []
  · have emptyIff := orderly.userToSysStats.refines.listEmpty_iff
      (q := .freequeue) trivial
    rw [copyingFork, if_pos (emptyIff.mpr free)]
    exact iff_of_false (by simp) fun both => both.1 free
  · obtain ⟨uses, _, rfl, copying, memory⟩ := copyingFork_eq orderly free taken
    have noFault := fault_of_step taken
    have frames := Memory.reserveData_iff s.chosenDir s.forkPages
      { s.mm with dirCounter := uses }
    rw [memory] at noFault
    rw [copying]
    split_ifs at noFault ⊢ with all
    · have loopNoFault := (forkSpace_spec _ _ _ noFault).1
      exact iff_of_true rfl ⟨free, (frames loopNoFault).mp all⟩
    · exact iff_of_false Bool.false_ne_true fun both =>
        all ((frames noFault).mpr both.2)

end Kernel

/-! ## The pages that the copying loop uses -/

namespace Memory

variable {mm : Memory} {cr3 ptChild ptParent : DirId} {tlb : Tlb}
  {pages done : Nat}

theorem mem_lookUp {copy : Nat × PageTableEntry} {page : Nat}
    (member : copy ∈ mm.lookUp cr3 tlb page) : copy ∈ tlb ∨ copy.1 = page := by
  unfold lookUp at member
  split_ifs at member
  · rcases List.mem_cons.mp member with made | earlier
    · exact Or.inr (by rw [made])
    · exact Or.inl earlier
  · exact Or.inl member

theorem windowRounds_succ (loop : Memory × Tlb) :
    windowRounds cr3 ptChild ptParent pages (done + 1) loop =
      windowRound cr3 ptChild ptParent pages
        (windowRounds cr3 ptChild ptParent pages done loop)
        (numPagKernel + numPagCode + done) := by
  unfold windowRounds
  rw [List.range_succ, List.foldl_append, List.foldl_cons, List.foldl_nil]

/-- Without the translations the loop is the one of `sys_fork`. -/
theorem windowRounds_memory (mm : Memory) (tlb : Tlb) :
    (windowRounds cr3 ptChild ptParent pages pages (mm, tlb)).1 =
      mm.copyDataPages cr3 ptChild ptParent pages := by
  have rounds : ∀ done, (windowRounds cr3 ptChild ptParent pages done (mm, tlb)).1 =
      (List.range done).foldl (fun mm k => copyThroughWindow cr3 ptChild ptParent
        pages mm (numPagKernel + numPagCode + k)) mm := by
    intro done
    induction done with
    | zero => rfl
    | succ done inductionHypothesis =>
        rw [windowRounds_succ, windowRound, inductionHypothesis, List.range_succ,
          List.foldl_append, List.foldl_cons, List.foldl_nil]
  exact rounds pages

/-- The rounds use pages below the window and the windows of the rounds that are
over. -/
theorem mem_windowRounds (mm : Memory) (some_ : done ≤ pages)
    {copy : Nat × PageTableEntry}
    (member : copy ∈
      (windowRounds cr3 ptChild ptParent pages done (mm, tlb)).2) :
    copy ∈ tlb ∨ copy.1 < pagLogInitData + pages + done := by
  induction done with
  | zero => exact Or.inl member
  | succ done inductionHypothesis =>
      have low : numPagKernel + numPagCode = pagLogInitData := rfl
      rw [windowRounds_succ] at member
      rcases mem_lookUp member with inside | isWindow
      · rcases mem_lookUp inside with earlier | isSource
        · rcases inductionHypothesis (by omega) earlier with cached | below
          · exact Or.inl cached
          · exact Or.inr (by omega)
        · exact Or.inr (by omega)
      · exact Or.inr (by omega)

end Memory

/-! ## Every run -/

namespace Cached

open Library (Current)
open Memory (Maps)

variable {c c' : Cached} {activity : Activity} {image : BootImage}

/-- No entry is written of a page whose translation may be cached: not by
`sys_sbrk`, not by the error path of a fork in its caller's directory, and not
by the window of a fork that finds its frames. -/
def Spares (c : Cached) : Activity → Prop
  | .event (.syscall (.sbrk increment)) =>
      ∀ copy ∈ c.tlb,
        ¬ SbrkWrites increment.toInt c.kernel.currentTask c.kernel.mm copy.1
  | .event (.syscall .fork) =>
      c.kernel.queue .freequeue ≠ [] → ∀ copy ∈ c.tlb,
        (c.kernel.mm.freeFrames < c.kernel.forkPages →
          c.kernel.chosenDir = c.kernel.parentDir →
            ¬ Maps.Range pagLogInitData c.kernel.mm.freeFrames copy.1) ∧
        (c.kernel.forkPages ≤ c.kernel.mm.freeFrames →
          ¬ c.kernel.WindowPage copy.1)
  | _ => True

/-- The loop whose translations are followed is the one that the call runs. -/
theorem copyingFork_memory {s' : Kernel} {ptChild : DirId} {mm : Memory}
    (run : Reachable image c.kernel)
    (taken : c.kernel.step (.syscall .fork) = some s')
    (copying : c.kernel.userToSysStats.copyingFork = some (ptChild, mm)) :
    s'.mm = (Memory.windowRounds c.kernel.cr3 ptChild c.kernel.parentDir
      c.kernel.forkPages c.kernel.forkPages (mm, c.tlb)).1 := by
  have orderly := Kernel.orderly_of_reachable run
  have reached : c.kernel.userToSysStats.copyingFork.isSome = true := by
    rw [copying]
    rfl
  have free := ((Kernel.copyingFork_isSome orderly taken).mp reached).1
  obtain ⟨_, _, _, shape, memory⟩ := Kernel.copyingFork_eq orderly free taken
  rw [copying] at shape
  rw [memory, Memory.windowRounds_memory]
  split_ifs at shape ⊢
  · cases shape
    rfl

/-- A fork does not write through stale translations of its window. -/
theorem windowsFresh_of_spares {s' : Kernel} (run : Reachable image c.kernel)
    (taken : c.kernel.step (.syscall .fork) = some s')
    (spares : c.Spares (.event (.syscall .fork))) : c.WindowsFresh := by
  intro ptChild mm copying k more
  dsimp only
  intro copy member window
  have reached : c.kernel.userToSysStats.copyingFork.isSome = true := by
    rw [copying]
    rfl
  obtain ⟨free, enough⟩ := (Kernel.copyingFork_isSome
    (Kernel.orderly_of_reachable run) taken).mp reached
  have low : numPagKernel + numPagCode = pagLogInitData := rfl
  rcases Memory.mem_lookUp member with inside | isSource
  · rcases Memory.mem_windowRounds mm (by omega) inside with cached | below
    · refine absurd ?_ ((spares free copy cached).2 enough)
      constructor <;> omega
    · omega
  · omega

/-- What a step that writes no cached entry and not `%cr3` keeps. -/
theorem entries_kept {event : Event} {s' : Kernel} (run : Reachable image c.kernel)
    (taken : c.kernel.step event = some s') (spares : c.Spares (.event event))
    (noFlush : c.kernel.setsCr3 event s' = false) :
    ∀ copy ∈ c.tlb, s'.mm.pagusrTable c.kernel.cr3 copy.1 =
      c.kernel.mm.pagusrTable c.kernel.cr3 copy.1 := by
  intro copy member
  have orderly := Kernel.orderly_of_reachable run
  have mapped := Kernel.mapped_of_reachable run
  have paged : c.kernel.cr3 = c.kernel.parentDir :=
    Kernel.paged_of_reachable run
  have noFault := Kernel.fault_of_step taken
  simp only [Kernel.setsCr3, Bool.or_eq_false_iff, Bool.and_eq_false_iff,
    decide_eq_false_iff_not] at noFlush
  obtain ⟨notSwitched, noCopy⟩ := noFlush
  have effect := Kernel.handle_space orderly (Kernel.handle_of_step taken)
  by_cases forks : event = .syscall .fork
  · subst forks
    have notReached := noCopy.resolve_left fun different => different rfl
    have iffReached := Kernel.copyingFork_isSome orderly taken
    rw [notReached] at iffReached
    rcases Kernel.fork_outcome orderly mapped (Kernel.paged_of_reachable run) taken
      with ⟨_, refused⟩ | ⟨child, failed⟩ | ⟨child, succeeded⟩
    · rw [refused]
      rfl
    · obtain ⟨rest, queue⟩ := failed.first
      obtain ⟨uses, _, reserved⟩ := failed.reserved
      have tables := (Memory.reserveData_failed_table reserved noFault).1
      have free : c.kernel.queue .freequeue ≠ [] := by simp [queue]
      have spared := (spares free copy member).1 failed.few
      rw [tables]
      exact if_neg fun both => spared (both.1.symm.trans paged) both.2
    · obtain ⟨rest, queue⟩ := succeeded.first
      exact absurd (iffReached.mpr ⟨by simp [queue], succeeded.enough⟩)
        Bool.false_ne_true
  · cases effect with
    | same space => rw [space.tables.pagusrTable]
    | exited _ _ _ _ => exact absurd (Kernel.exit_switches run taken) notSwitched
    | forkFailed _ _ _ _ => exact absurd rfl forks
    | forked _ _ _ _ => exact absurd rfl forks
    | cloned _ _ _ _ _ after => rw [after]
    | moved _ _ _ after =>
        have nonneg := mapped.nonneg c.kernel.current
        rw [after] at noFault ⊢
        exact (sysSbrk_effect _ _ _ nonneg noFault).spares nonneg noFault
          (spares copy member) _

theorem Coherent.step (coherent : c.Coherent) (run : Reachable image c.kernel)
    (spares : c.Spares activity) (taken : c.step activity = some c') :
    c'.Coherent := by
  cases activity with
  | access page =>
      obtain ⟨_, ⟨⟩⟩ := Option.ite_none_right_eq_some.mp taken
      unfold Coherent Memory.lookUp
      dsimp only
      split_ifs
      · exact Current.remember coherent page
      · exact coherent
  | event event =>
      obtain ⟨s', stepped, rfl⟩ := Option.map_eq_some_iff.mp taken
      unfold Coherent
      dsimp only
      split_ifs with flushed
      · exact Current.nil _
      · have noFlush : c.kernel.setsCr3 event s' = false := by simpa using flushed
        have mode : s'.mode = .user := by
          cases mode : s'.mode with
          | user => rfl
          | switched => simp [Kernel.setsCr3, mode] at noFlush
        rw [Kernel.cr3_of_step run stepped mode]
        exact coherent.change_iff.mpr (entries_kept run stepped spares noFlush)

/-- A run with a cache is a run. -/
theorem reachable (run : Library.Reach step Spares (boot image) c) :
    Reachable image c.kernel := by
  induction run with
  | start => exact .start
  | @step before after activity _ _ taken inductionHypothesis =>
      cases activity with
      | access page =>
          obtain ⟨_, ⟨⟩⟩ := Option.ite_none_right_eq_some.mp taken
          exact inductionHypothesis
      | event event =>
          obtain ⟨s', stepped, rfl⟩ := Option.map_eq_some_iff.mp taken
          exact inductionHypothesis.step trivial stepped

theorem coherent_of_run (run : Library.Reach step Spares (boot image) c) :
    c.Coherent := by
  induction run with
  | start => exact Current.nil _
  | step earlier spares taken inductionHypothesis =>
      exact inductionHypothesis.step (reachable earlier) spares taken

/-- In a run that writes no entry of a page whose translation may be cached, no
stale translation is used: not by user code, and not by the window of a fork. -/
theorem no_stale_translation (run : Library.Reach step Spares (boot image) c) :
    c.Coherent ∧ ∀ c', c.Spares (.event (.syscall .fork)) →
      c.step (.event (.syscall .fork)) = some c' → c.WindowsFresh := by
  refine ⟨coherent_of_run run, fun c' spares taken => ?_⟩
  obtain ⟨s', stepped, _⟩ := Option.map_eq_some_iff.mp taken
  exact windowsFresh_of_spares (reachable run) stepped spares

/-- The first process uses a data page and forks. -/
theorem no_stale_translation_forked :
    let used := Library.lastState step (boot sampleImage) [.access 264]
    used.tlb ≠ [] ∧ used.Coherent ∧ used.WindowsFresh := by
  intro used
  have run : Library.Reach step Spares (boot sampleImage) used := by
    refine Library.Reach.lastState fun activity member state => ?_
    cases List.mem_singleton.mp member
    trivial
  have possible : (used.step (.event (.syscall .fork))).isSome = true ∧
      used.tlb.map Prod.fst = [264] ∧ used.kernel.forkPages = 20 ∧
        used.kernel.forkPages ≤ used.kernel.mm.freeFrames := by
    decide +kernel
  obtain ⟨forks, pages, count, enough⟩ := possible
  obtain ⟨c', taken⟩ := Option.isSome_iff_exists.mp forks
  have spares : used.Spares (.event (.syscall .fork)) := by
    intro _ copy member
    have page : copy.1 = 264 := by
      have listed := List.mem_map_of_mem (f := Prod.fst) member
      rw [pages] at listed
      exact List.mem_singleton.mp listed
    have bounds : pagLogInitData = 264 := rfl
    exact ⟨fun few => absurd few (by omega), fun _ window => by omega⟩
  have cached : used.tlb ≠ [] := by
    intro empty
    rw [empty] at pages
    cases pages
  exact ⟨cached, coherent_of_run run,
    (no_stale_translation run).2 c' spares taken⟩

/-- The first process makes a heap of three pages, writes to the last one and
gives it back: the translation is still there. -/
theorem unmapped_page_cached : ∃ c,
    Library.Reach step (fun _ _ => True) (boot sampleImage) c ∧
      c.kernel.mode = .user ∧ ¬ c.Coherent := by
  let last := Library.lastState step (boot sampleImage)
    [.event (.syscall (.sbrk 12288)), .access 286,
      .event (.syscall (.sbrk (-12288)))]
  have stale : last.kernel.mode = .user ∧
      ∃ copy ∈ last.tlb,
        last.kernel.mm.pagusrTable last.kernel.cr3 copy.1 ≠ copy.2 := by
    decide +kernel
  obtain ⟨mode, copy, member, differs⟩ := stale
  exact ⟨last, Library.Reach.lastState fun _ _ _ => trivial, mode,
    fun coherent => differs (coherent copy member)⟩

end Cached

end Zeos
