import Zeos.Library.Transfers
import Zeos.Space.Isolation

/-!
# Memory exceptions in the kernel

The kernel does not come back from a memory exception.  Interrupts, dispatches and most
calls never cause one; a block that is copied does where a byte of it is not mapped, and a
fork does where its caller's heap has a hole.  The loops of `sys_sbrk` cause none where they
leave the page table: they go on in the table of another directory.
-/

namespace Zeos

/-! ## `sys_sbrk` -/

section Break

variable {t : TaskStruct} {mm : Memory} {count i : Nat} {increment : Int}

theorem releasePages_fault (count : Nat) (t : TaskStruct) (noFault : mm.fault = false) :
    (releasePages count t mm).2.fault = false ↔
      count = 0 ∨ ((count : Int) ≤ heapInitPage + t.heapPages ∧
        heapInitPage + t.heapPages < totalPages) := by
  constructor
  · intro finished
    by_cases none : count = 0
    · exact Or.inl none
    · exact Or.inr ((releasePages_spec count t mm finished).2.2.1 none)
  · rintro (none | ⟨lower, upper⟩)
    · rw [none]
      exact noFault
    · exact releasePages_noFault count t mm lower upper noFault

/-- Whether a growing loop stays in the table: it maps as many pages as there are frames,
and the rollback clears the entry behind them. -/
def GrowsInTable (asked free : Nat) (first : Int) : Prop :=
  if asked ≤ free then asked = 0 ∨ first + asked ≤ totalPages
  else free = 0 ∨ first + free < totalPages

theorem growHeap_fault (count i : Nat) (t : TaskStruct) (mm : Memory)
    (nonneg : (i : Int) ≤ t.heapPages) (noFault : mm.fault = false) :
    (growHeap count i t mm).2.2.fault = false ↔
      if count ≤ mm.freeFrames then
        count = 0 ∨ heapInitPage + t.heapPages + count ≤ totalPages
      else i + mm.freeFrames = 0 ∨ heapInitPage + t.heapPages + mm.freeFrames < totalPages := by
  induction count generalizing i t mm with
  | zero => exact iff_of_true noFault (by simp)
  | succ count inductionHypothesis =>
      cases found : mm.allocFrame with
      | none =>
          have none := Memory.allocFrame_none_iff.mp found
          have stops : growHeap (count + 1) i t mm = (false, releasePages i t mm) := by
            simp only [growHeap, found]
          rw [stops, releasePages_fault i t noFault, none, if_neg (by omega)]
          push_cast
          omega
      | some reserved =>
          obtain ⟨frame, mm₁⟩ := reserved
          obtain ⟨_, _, _, shape, counted⟩ := Memory.allocFrame_some found
          have sameFault : mm₁.fault = mm.fault := by rw [shape]
          by_cases inTable : Memory.InTable (heapInitPage + t.heapPages : Int)
          · have goesOn : growHeap (count + 1) i t mm =
                growHeap count (i + 1) { t with heapPages := t.heapPages + 1 }
                  (mm₁.setSsPag t.dirPagesBaseAddr
                    (heapInitPage + t.heapPages : Int) frame) := by
              simp only [growHeap, found]
            have kept : (mm₁.setSsPag t.dirPagesBaseAddr
                (heapInitPage + t.heapPages : Int) frame).fault = false := by
              unfold Memory.setSsPag Memory.setEntry
              rw [if_pos inTable]
              exact sameFault.trans noFault
            have inside := inTable.2
            rw [goesOn, inductionHypothesis (i + 1) { t with heapPages := t.heapPages + 1 } _
              (by dsimp only; push_cast; omega) kept, Memory.setSsPag_freeFrames]
            dsimp only
            by_cases enough : count ≤ mm₁.freeFrames
            · rw [if_pos enough, if_pos (by omega)]
              omega
            · rw [if_neg enough, if_neg (by omega)]
              omega
          · have strays : (growHeap (count + 1) i t mm).2.2.fault = true := by
              simp only [growHeap, found]
              exact growHeap_stray _ _ _ _ (Memory.setSsPag_stray inTable)
            have beyond : (totalPages : Int) ≤ heapInitPage + t.heapPages := by
              by_contra inside
              exact inTable ⟨by omega, by omega⟩
            have more : 0 < mm.freeFrames := by omega
            rw [strays]
            refine iff_of_false (by decide) ?_
            by_cases enough : count + 1 ≤ mm.freeFrames
            · rw [if_pos enough]
              omega
            · rw [if_neg enough]
              omega

/-- The loops of a call stay in the page table. -/
def SbrkInTable (increment : Int) (t : TaskStruct) (mm : Memory) : Prop :=
  if increment < 0 then
    t.heap = 0 ∨ pagesBack increment t = 0 ∨
      ((pagesBack increment t : Int) ≤ heapInitPage + t.heapPages ∧
        heapInitPage + t.heapPages < totalPages)
  else
    GrowsInTable (newPages increment (openHeap t mm).1) (openHeap t mm).2.freeFrames
      (heapInitPage + (openHeap t mm).1.heapPages)

theorem moveBreak_fault (growing : 0 ≤ increment) (nonneg : 0 ≤ t.heapPages)
    (noFault : mm.fault = false) :
    (moveBreak increment t mm).2.2.fault = false ↔
      GrowsInTable (newPages increment t) mm.freeFrames (heapInitPage + t.heapPages) := by
  by_cases asks : 0 < increment ∧
      ¬ int32 (t.heapSize.tmod pageSize + increment) < pageSize
  · have pages : rounds (int32 ((int32 (t.heapSize + increment)).tdiv pageSize -
        t.heapPages)) = newPages increment t := by
      unfold newPages grownSize
      rw [if_pos asks, if_neg (by omega)]
    have loop := growHeap_fault (newPages increment t) 0
      { t with heapSize := int32 (t.heapSize + increment) } mm nonneg noFault
    rw [Nat.zero_add] at loop
    unfold GrowsInTable
    rw [← loop]
    unfold moveBreak
    dsimp only
    rw [if_neg (by omega), if_pos asks.1, if_neg asks.2, pages]
    split
    · next result => rw [result]
    · next result => rw [result]
  · have none : newPages increment t = 0 := if_neg asks
    have same : (moveBreak increment t mm).2.2 = mm := by
      unfold moveBreak
      dsimp only
      split_ifs
      · rfl
      · rfl
      all_goals omega
    rw [same, none]
    refine iff_of_true noFault ?_
    unfold GrowsInTable
    rw [if_pos (Nat.zero_le _)]
    exact Or.inl rfl

theorem sysSbrk_fault (increment : Int32) (nonneg : 0 ≤ t.heapPages)
    (noFault : mm.fault = false) :
    (sysSbrk increment t mm).2.2.fault = false ↔ SbrkInTable increment.toInt t mm := by
  have opened : (openHeap t mm).2.fault = false := by
    rcases openHeap_cases t mm with ⟨same, _⟩ | ⟨_, mm₁, first, maps⟩
    · rw [same]
      exact noFault
    · rw [first]
      exact maps.fault.trans noFault
  unfold SbrkInTable
  by_cases refused : t.heap = 0 ∧ (increment.toInt < 0 ∨ mm.freeFrames = 0)
  · rw [sysSbrk_refused increment refused.1 refused.2]
    refine iff_of_true noFault ?_
    split_ifs with shrinking
    · exact Or.inl refused.1
    · have empty := refused.2.resolve_left shrinking
      have same : openHeap t mm = (t, mm) := by
        unfold openHeap
        rw [if_pos refused.1, Memory.allocFrame_none_iff.mpr empty]
      rw [same, GrowsInTable, empty]
      split_ifs
      · exact Or.inl (by omega)
      · exact Or.inl rfl
  · rw [sysSbrk_moves increment refused]
    split_ifs with shrinking
    · have made : t.heap ≠ 0 := fun missing => refused ⟨missing, Or.inl shrinking⟩
      have same : openHeap t mm = (t, mm) := if_neg made
      rw [same, moveBreak_shrinks t mm shrinking]
      dsimp only
      rw [releasePages_fault _ _ noFault]
      exact (or_iff_right made).symm
    · exact moveBreak_fault (by omega) (openHeap_nonneg mm nonneg) opened

end Break

/-! ## Copied blocks -/

namespace Memory

variable {mm mm' : Memory} {dir : DirId} {start : UInt32} {size : Nat}

/-- The frame and offset of an address. -/
def locate (mm : Memory) (dir : DirId) (address : UInt32) : Option (Nat × Nat) :=
  (mm.translate dir (address.toNat / pageSize)).map fun frame =>
    (frame, address.toNat % pageSize)

theorem storeByte_locate (mm : Memory) (dir : DirId) (address : UInt32) (value : UInt8) :
    (mm.storeByte dir address value).locate dir = mm.locate dir := by
  funext other
  unfold locate
  rw [storeByte_translate]

theorem storeByte_fault (mm : Memory) (dir : DirId) (address : UInt32) (value : UInt8) :
    (mm.storeByte dir address value).fault = false ↔
      mm.fault = false ∧ (mm.locate dir address).isSome := by
  unfold storeByte locate
  cases mm.translate dir (address.toNat / pageSize) with
  | none => simp
  | some frame => simp

/-- `copy_to_user` ends if every byte of the block is mapped. -/
theorem copyToUser_fault (dir : DirId) : ∀ (values : List UInt8) (dest : UInt32)
    (mm : Memory), (copyToUser dir values dest mm).fault = false ↔
      mm.fault = false ∧ Library.Mapped (mm.locate dir) dest values.length
  | [], dest, mm => (and_iff_left fun _ few => absurd few (Nat.not_lt_zero _)).symm
  | value :: values, dest, mm => by
      rw [copyToUser, copyToUser_fault dir values, storeByte_fault, storeByte_locate,
        List.length_cons, Library.mapped_succ, and_assoc]

/-- `copy_from_user` reads a block if every byte of it is mapped. -/
theorem copyFromUser_isSome (mm : Memory) (dir : DirId) : ∀ (size : Nat) (start : UInt32),
    (mm.copyFromUser dir size start).isSome ↔ Library.Mapped (mm.locate dir) start size
  | 0, _ => iff_of_true rfl fun _ few => absurd few (Nat.not_lt_zero _)
  | size + 1, start => by
      rw [Library.mapped_succ, ← copyFromUser_isSome mm dir size, copyFromUser, loadByte, locate]
      cases mm.translate dir (start.toNat / pageSize) with
      | none => simp
      | some frame =>
          cases mm.copyFromUser dir size (start + 1) with
          | none => simp
          | some values => simp

end Memory

namespace Kernel

variable {s s' : Kernel} {event : Event} {image : BootImage} {x : Transfer}

/-- The kernel reaches every byte of the block. -/
def Reaches (s : Kernel) (x : Transfer) : Prop :=
  Library.Mapped (s.mm.locate s.cr3) x.start x.size

theorem writeChunks_fault (buffer : UInt32) (size chunks : Nat)
    (noFault : s.mm.fault = false)
    (mapped : Library.Mapped (s.mm.locate s.cr3) buffer size) :
    ((List.range chunks).foldl (writeChunk buffer size) (0, s)).2.mm.fault = false := by
  induction chunks with
  | zero => exact noFault
  | succ chunks inductionHypothesis =>
      rw [List.range_succ, List.foldl_append, List.foldl_cons, List.foldl_nil]
      obtain ⟨values, _, shape⟩ := writeChunks_reads buffer size chunks inductionHypothesis
      rw [shape]
      have part : Library.Mapped (s.mm.locate s.cr3)
          (buffer + UInt32.ofNat (2048 * chunks)) (min 2048 (size - 2048 * chunks)) := by
        intro k few
        rw [Library.add_ofNat_add]
        exact mapped _ (by omega)
      obtain ⟨later, loaded⟩ := Option.isSome_iff_exists.mp
        ((s.mm.copyFromUser_isSome s.cr3 _ _).mpr part)
      unfold writeChunk
      dsimp only
      rw [loaded]
      exact noFault

theorem sysWrite_fault (fd : Int32) (buffer : UInt32) (size : Int32)
    (noFault : s.mm.fault = false) :
    (s.sysWrite fd buffer size).2.mm.fault = false ↔
      ∀ x ∈ writeTransfers fd buffer size, s.Reaches x := by
  unfold sysWrite writeTransfers
  dsimp only
  by_cases wrongFd : checkFd fd.toInt true < 0
  · rw [if_pos wrongFd, if_pos (Or.inl wrongFd)]
    exact iff_of_true noFault nofun
  by_cases null : buffer = 0
  · rw [if_neg wrongFd, if_pos null, if_pos (Or.inr (Or.inl null))]
    exact iff_of_true noFault nofun
  by_cases negative : size.toInt < 0
  · rw [if_neg wrongFd, if_neg null, if_pos negative, if_pos (Or.inr (Or.inr negative))]
    exact iff_of_true noFault nofun
  rw [if_neg wrongFd, if_neg null, if_neg negative, if_neg (by simp [wrongFd, null, negative])]
  constructor
  · intro finished x member
    obtain ⟨values, loaded, _⟩ := writeChunks_reads buffer size.toInt.toNat _ finished
    have whole : min size.toInt.toNat (2048 * ((size.toInt.toNat + 2047) / 2048)) =
        size.toInt.toNat := by omega
    rw [whole] at loaded
    rw [List.mem_singleton.mp member]
    exact (s.mm.copyFromUser_isSome s.cr3 _ _).mp (Option.isSome_of_eq_some loaded)
  · intro reaches
    exact writeChunks_fault buffer _ _ noFault (reaches _ (List.mem_singleton.mpr rfl))

theorem sysGetStats_fault (pid : Int32) (st : UInt32) (noFault : s.mm.fault = false) :
    (s.sysGetStats pid st).2.mm.fault = false ↔
      ∀ x ∈ s.getStatsTransfers pid st, s.Reaches x := by
  have copied : ∀ (stats : Stats), (Memory.copyToUser s.cr3 stats.bytes st s.mm).fault = false ↔
      ∀ x ∈ ([⟨.verifyWrite, st, 28⟩] : List Transfer), s.Reaches x := by
    intro stats
    have length : stats.bytes.length = 28 := rfl
    rw [Memory.copyToUser_fault, length, List.forall_mem_singleton]
    exact and_iff_right noFault
  unfold sysGetStats getStatsTransfers
  by_cases negative : pid.toInt < 0
  · rw [if_pos negative, if_pos (Or.inl negative)]
    exact iff_of_true noFault nofun
  by_cases null : st = 0
  · rw [if_neg negative, if_pos null, if_pos (Or.inr (Or.inl null))]
    exact iff_of_true noFault nofun
  by_cases denied : ¬ accessOk .verifyWrite st 28
  · rw [if_neg negative, if_neg null, if_pos denied,
      if_pos (Or.inr (Or.inr (Or.inl (by simpa using denied))))]
    exact iff_of_true noFault nofun
  have named : ∀ i : TaskId, (s.task i).pid = pid.toInt →
      ¬ (pid.toInt < 0 ∨ st = 0 ∨ accessOk .verifyWrite st 28 = false ∨
        ∀ i, (s.task i).pid ≠ pid.toInt) := by
    rintro i same (isNegative | isNull | isDenied | nobody)
    · exact negative isNegative
    · exact null isNull
    · exact denied (by simp [isDenied])
    · exact nobody i same
  rw [if_neg negative, if_neg null, if_neg denied]
  by_cases own : pid.toInt = s.currentTask.pid
  · rw [if_pos own, if_neg (named s.current own.symm)]
    exact copied _
  · rw [if_neg own]
    cases found : (List.finRange nrTasks).find? (fun i => (s.task i).pid = pid.toInt) with
    | some i =>
        have same : (s.task i).pid = pid.toInt := by simpa using List.find?_some found
        rw [if_neg (named i same)]
        exact copied _
    | none =>
        have nobody : ∀ i, (s.task i).pid ≠ pid.toInt := by
          intro i
          simpa using List.find?_eq_none.mp found i (List.mem_finRange i)
        rw [if_pos (Or.inr (Or.inr (Or.inr nobody)))]
        exact iff_of_true noFault nofun

theorem readLoop_fault (buf : UInt32) (n : Int) (stored : List UInt8)
    (noFault : s.mm.fault = false) :
    (complete (s.readLoop buf n stored)).mm.fault = false ↔
      ∀ x ∈ s.delivery buf n stored, s.Reaches x := by
  rw [readLoop_eq]
  unfold delivery
  dsimp only
  split_ifs with short
  · refine iff_of_true ?_ nofun
    change (schedNextRr _ _).mm.fault = false
    rw [(Keeps.schedNextRr _ _).mm]
    exact noFault
  · rw [List.forall_mem_singleton]
    change (Memory.copyToUser s.cr3 _ buf s.mm).fault = false ↔ _
    rw [Memory.copyToUser_fault]
    exact and_iff_right noFault

/-! ## `sys_fork` -/

/-- The frames of the code pages are in use and no data or heap page maps them. -/
def CodeReserved (s : Kernel) : Prop :=
  ∀ k < numPagCode, s.mm.holdings.Reserved (numPagKernel + 2 * k)

theorem boot_codeReserved (image : BootImage) : (boot image).CodeReserved := by
  intro k few
  have bounds : numPagKernel = 256 ∧ pagLogInitCode = 256 ∧ pagLogInitData = 264 ∧
      heapInitPage = 284 ∧ numPagCode = 8 ∧ numPagCode + numPagData = 28 :=
    ⟨rfl, rfl, rfl, rfl, rfl, rfl⟩
  have reserved := (boot_separate image).code 1 (pagLogInitCode + k) (by omega) (by omega)
  have empty : Memory.initTablePages image.taskPage (pagLogInitCode + k) = {} :=
    if_neg (by omega)
  have frame : (boot image).mm.getFrame 1 (pagLogInitCode + k) = numPagKernel + 2 * k := by
    rw [Memory.getFrame, boot_table, empty, if_pos rfl, Memory.userTable, if_pos (by omega),
      Nat.add_sub_cancel_left]
  rwa [frame] at reserved

theorem codeReserved_of_reachable (run : Reachable image s) : s.CodeReserved := by
  refine Library.Reach.invariant_over CodeReserved (boot_codeReserved image)
    (fun _ plain => (⟨orderly_of_reachable plain, mapped_of_reachable plain⟩ :
      Orderly _ ∧ Mapped _)) ?_ run
  intro before event after base reserved _ taken k few
  have effect := handle_space base.1 (handle_of_step taken)
  exact reserved_effect base.2 effect (fault_of_step taken) (reserved k few)

/-- The frames of the code pages are never given out. -/
theorem CodeReserved.few (reserved : s.CodeReserved) : s.mm.freeFrames ≤ 376 := by
  have split : Memory.frameScan = Memory.frameScan.take numPagCode ++
      Memory.frameScan.drop numPagCode := (List.take_append_drop _ _).symm
  have none : (Memory.frameScan.take numPagCode).countP
      (fun i => s.mm.physMem i = .freeFrame) = 0 := by
    rw [List.countP_eq_zero]
    intro frame member
    have first : Memory.frameScan.take numPagCode =
        (List.range numPagCode).map fun k => numPagKernel + 2 * k := by decide
    rw [first] at member
    obtain ⟨k, few, rfl⟩ := List.mem_map.mp member
    have used : s.mm.physMem (numPagKernel + 2 * k) = .usedFrame :=
      (reserved k (List.mem_range.mp few)).1
    rw [used]
    decide
  have rest := List.countP_le_length
    (p := fun i => decide (s.mm.physMem i = .freeFrame)) (l := Memory.frameScan.drop numPagCode)
  have length : (Memory.frameScan.drop numPagCode).length = 376 := by
    rw [List.length_drop, Memory.frameScan, List.length_map, List.length_range]
    rfl
  unfold Memory.freeFrames
  rw [split, List.countP_append, none]
  omega

end Kernel

namespace Memory

variable {mm mm' : Memory} {dir : DirId}

/-- The reservation loop stays in the table if the free frames do. -/
theorem reserveData_fault (dir : DirId) (count pg : Nat) (mm : Memory)
    (room : pagLogInitData + pg + mm.freeFrames ≤ totalPages) (noFault : mm.fault = false) :
    (reserveData dir count pg mm).2.fault = false := by
  induction count generalizing pg mm with
  | zero => exact noFault
  | succ count inductionHypothesis =>
      cases found : mm.allocFrame with
      | none =>
          simp only [reserveData, found]
          rw [releaseData_eq]
          apply givePages_noFault dir _ _ mm noFault
          intro page member
          have range := mem_dataPages.mp member
          omega
      | some reserved =>
          obtain ⟨frame, mm₁⟩ := reserved
          obtain ⟨_, _, _, rfl, counted⟩ := allocFrame_some found
          have inTable : InTable (pagLogInitData + pg : Nat) := ⟨by omega, by omega⟩
          simp only [reserveData, found]
          apply inductionHypothesis
          · rw [setSsPag_freeFrames]
            omega
          · unfold setSsPag setEntry
            rw [if_pos inTable]
            exact noFault

end Memory

namespace Kernel

variable {s s' : Kernel} {event : Event} {image : BootImage} {x : Transfer} {dir : DirId}
  {uses : DirId → Int} {mm : Memory}

/-- A fork copies its caller's pages if they are all mapped.  A child that is given its
caller's directory has replaced them by then. -/
def ForkCopies (s : Kernel) (dir : DirId) : Prop :=
  dir = s.parentDir ∨ ∀ page, s.ChildPage page →
    (s.mm.pagusrTable s.parentDir page).present = true

theorem forkSpace_fault (paged : s.Paged) (few : s.mm.freeFrames ≤ 376)
    (maps : Memory.Maps dir pagLogInitData s.forkPages { s.mm with dirCounter := uses } mm)
    (noFault : s.mm.fault = false) :
    (s.forkSpace mm dir).fault = false ↔ s.ForkCopies dir := by
  have counted := maps.freeFrames
  change s.mm.freeFrames = _ at counted
  have bounds : pagLogInitData = 264 ∧ totalPages = 1024 := ⟨rfl, rfl⟩
  obtain ⟨table, _, fault⟩ := s.shared_table maps
  have shape : s.forkSpace mm dir =
      ((mm.sharePages dir s.parentDir 0 numPagKernel).sharePages dir s.parentDir
        pagLogInitCode numPagCode).copyRounds dir s.parentDir s.forkPages s.forkPages := by
    unfold forkSpace
    dsimp only
    rw [show s.cr3 = s.parentDir from paged, Memory.copyDataPages_eq]
  rw [shape]
  generalize (mm.sharePages dir s.parentDir 0 numPagKernel).sharePages dir
    s.parentDir pagLogInitCode numPagCode = shared at table fault
  have present : (∀ page, s.ChildPage page →
      (shared.pagusrTable s.parentDir page).present = true) ↔ s.ForkCopies dir := by
    by_cases own : s.parentDir = dir
    · refine iff_of_true (fun page range => ?_) (Or.inl own.symm)
      rw [table, if_pos ⟨own, range⟩]
      rfl
    · unfold ForkCopies
      rw [or_iff_right (Ne.symm own)]
      refine forall₂_congr fun page _ => ?_
      rw [table, if_neg fun both => own both.1, if_neg fun both => own both.1]
  rw [← present]
  constructor
  · intro finished
    exact (Memory.copyRounds_noFault _ dir s.parentDir (Nat.le_refl _) finished).2.1
  · intro all
    have copied := shared.copyRounds_copied dir s.parentDir (Nat.le_refl s.forkPages)
      (by omega) all
    exact ((copied.fault.trans fault).trans maps.fault).trans noFault

theorem fork_fault (orderly : s.Orderly) (paged : s.Paged) (few : s.mm.freeFrames ≤ 376)
    (noFault : s.mm.fault = false) :
    (s.systemCall .fork).mm.fault = false ↔
      (s.queue .freequeue ≠ [] → s.forkPages ≤ s.mm.freeFrames →
        s.ForkCopies s.chosenDir) := by
  by_cases free : s.queue .freequeue = []
  · have empty : s.userToSysStats.listEmpty .freequeue = true :=
      (orderly.userToSysStats.refines.listEmpty_iff (q := .freequeue) trivial).mpr free
    have shape : s.systemCall .fork = s.userToSysStats.sysReturn (-eagain) := by
      change s.userToSysStats.sysFork.2.sysReturn s.userToSysStats.sysFork.1 = _
      rw [sysFork, if_pos empty]
    rw [shape]
    exact iff_of_true noFault fun some_ => absurd free some_
  obtain ⟨child, rest, queue⟩ := List.exists_cons_of_ne_nil free
  have different : child ≠ s.current :=
    orderly.settled.away (show child ∈ s.queue .freequeue by simp [queue])
  obtain ⟨dir, uses, mm, _, chosen, _, _, outcome⟩ :=
    forkInto_space (s.userToSysStats.listDel child) different
  have isChosen : dir = s.chosenDir := chosen
  subst isChosen
  have reserving := Memory.reserveData_fault s.chosenDir s.forkPages 0
    { s.mm with dirCounter := uses } (by
      change pagLogInitData + 0 + s.mm.freeFrames ≤ totalPages
      have bounds : pagLogInitData = 264 ∧ totalPages = 1024 := ⟨rfl, rfl⟩
      omega) noFault
  have enough := Memory.reserveData_iff s.chosenDir s.forkPages
    { s.mm with dirCounter := uses } reserving
  rw [fork_shape orderly queue]
  change ((s.userToSysStats.listDel child).forkInto child).2.mm.fault = false ↔ _
  rcases outcome with ⟨failed, _, _, _, after⟩ | ⟨reserved, _, after⟩
  · have failed : Memory.reserveData s.chosenDir s.forkPages 0
        { s.mm with dirCounter := uses } = (false, mm) := failed
    rw [failed] at reserving enough
    rw [after]
    exact iff_of_true reserving fun _ many => absurd (enough.mpr many) Bool.false_ne_true
  · have reserved : Memory.reserveData s.chosenDir s.forkPages 0
        { s.mm with dirCounter := uses } = (true, mm) := reserved
    rw [reserved] at reserving enough
    rw [after]
    have maps := Memory.reserveData_done reserved reserving
    change (s.forkSpace mm s.chosenDir).fault = false ↔ _
    rw [forkSpace_fault paged few maps noFault]
    exact ⟨fun copies _ _ => copies, fun copies => copies free (enough.mp rfl)⟩

/-! ## All events -/

/-- What the kernel touches at the event is there. -/
def Safe (s : Kernel) : Event → Prop
  | .syscall .fork => s.queue .freequeue ≠ [] → s.forkPages ≤ s.mm.freeFrames →
      s.ForkCopies s.chosenDir
  | .syscall (.sbrk increment) => SbrkInTable increment.toInt s.currentTask s.mm
  | event => ∀ x ∈ s.transfers event, s.Reaches x

theorem exit_fault (orderly : s.Orderly) (busy : s.current ≠ s.idleTask)
    (noFault : s.mm.fault = false) : (s.systemCall .exit).mm.fault = false := by
  rw [(exit_state orderly busy).2.2.2]
  unfold releaseDir
  dsimp only
  split_ifs
  · rw [Memory.freeUserPages_eq]
    refine Memory.givePages_noFault _ _ (fun page member => ?_) _ noFault
    have range := Memory.mem_dataPages.mp member
    have bounds : pagLogInitData = 264 ∧ numPagData = 20 ∧ totalPages = 1024 :=
      ⟨rfl, rfl, rfl⟩
    omega
  · exact noFault

theorem call_fault (orderly : s.Orderly) (mapped : s.Mapped) (paged : s.Paged)
    (few : s.mm.freeFrames ≤ 376) (noFault : s.mm.fault = false)
    (busy : s.current ≠ s.idleTask) (call : Syscall) :
    (s.systemCall call).mm.fault = false ↔ s.Safe (.syscall call) := by
  have entered := orderly.userToSysStats
  have unchanged : (s.systemCall call).mm = s.mm → s.transfers (.syscall call) = [] →
      ((s.systemCall call).mm.fault = false ↔ ∀ x ∈ s.transfers (.syscall call), s.Reaches x) := by
    intro same none
    rw [same, none]
    exact iff_of_true noFault (List.forall_mem_nil _)
  cases call with
  | fork => exact fork_fault orderly paged few noFault
  | sbrk increment => exact sysSbrk_fault increment (mapped.nonneg s.current) noFault
  | exit => exact iff_of_true (exit_fault orderly busy noFault) (List.forall_mem_nil _)
  | read fd buf count =>
      apply unchanged
      · change (complete (s.userToSysStats.sysRead fd buf count)).mm = _
        rcases sysRead_cases entered.cbIsEmpty fd buf count with
          ⟨_, result, failed⟩ | ⟨_, waits⟩
        · rw [failed]
          rfl
        · rw [waits]
          exact ((Keeps.block _ _ _).trans (Keeps.schedNextRr _ _)).mm
      · refine if_neg fun able => ?_
        rw [orderly.cbIsEmpty] at able
        cases able.2.2
  | write fd buffer size => exact s.userToSysStats.sysWrite_fault fd buffer size noFault
  | getStats pid st => exact s.userToSysStats.sysGetStats_fault pid st noFault
  | clone function stack =>
      refine iff_of_true ?_ (List.forall_mem_nil _)
      change (s.userToSysStats.sysClone function stack).2.mm.fault = false
      unfold sysClone
      split_ifs
      · exact noFault
      · exact noFault
      · split <;> exact noFault
  | semInit nSem value => exact unchanged (sysSemInit_keeps _ nSem value).mm rfl
  | semWait nSem =>
      refine unchanged ?_ rfl
      have keeps := sysSemWait_keeps s.userToSysStats nSem
      change (complete (s.userToSysStats.sysSemWait nSem)).mm = _
      cases answer : s.userToSysStats.sysSemWait nSem with
      | mk result after =>
          rw [answer] at keeps
          cases result with
          | none => exact keeps.mm
          | some value => exact keeps.mm
  | semSignal nSem =>
      exact unchanged (sysSemSignal_quiet entered.refines entered.settled busy nSem).2.mm rfl
  | semDestroy nSem =>
      exact unchanged (sysSemDestroy_quiet entered.refines entered.settled busy nSem).2.mm rfl
  | gettime => exact unchanged rfl rfl
  | getpid => exact unchanged rfl rfl
  | niSyscall => exact unchanged rfl rfl

theorem noFault_of_reachable (run : Reachable image s) : s.mm.fault = false := by
  cases run with
  | start =>
      rw [(boot_space image).2]
      rfl
  | step _ _ taken => exact fault_of_step taken

/-- In every reachable state, an event that can happen, and whose buffer fits, goes on as
the kernel's code says if and only if it is safe: else the kernel touches a page that is not
there, or an entry outside the caller's page table.  Interrupts are always safe, and so is
the resumption of a process other than a reader. -/
theorem exceptions_exact (run : Reachable image s) (fits : s.BuffersFit event)
    (handled : s.handle event = some s') : s.step event = some s' ↔ s.Safe event := by
  have orderly := orderly_of_reachable run
  have mapped := mapped_of_reachable run
  have paged := paged_of_reachable run
  have few := (codeReserved_of_reachable run).few
  have noFault := noFault_of_reachable run
  have taken : s.step event = some s' ↔ s'.mm.fault = false :=
    step_eq_some.trans ⟨fun able => able.2.2, fun ends => ⟨fits, handled, ends⟩⟩
  rw [taken]
  cases event with
  | clock =>
      rw [handle] at handled
      split_ifs at handled
      cases handled
      refine iff_of_true ?_ (List.forall_mem_nil _)
      rw [clockRoutine, (Keeps.schedule _).mm]
      exact noFault
  | keyboard scancode beyond =>
      rw [handle] at handled
      split_ifs at handled
      cases handled
      refine iff_of_true ?_ (List.forall_mem_nil _)
      rw [keyboard_mm]
      exact noFault
  | syscall call =>
      have called := syscall_of_handle handled
      rw [handle] at handled
      split_ifs at handled with able
      rw [← called]
      exact call_fault orderly mapped paged few noFault able.2 call
  | badSyscall =>
      rw [handle] at handled
      split_ifs at handled
      cases handled
      exact iff_of_true noFault (List.forall_mem_nil _)
  | resume =>
      rw [handle] at handled
      split_ifs at handled
      cases handled
      unfold Safe transfers resume
      dsimp only
      cases context : s.context s.current with
      | readKeyboard buf n stored => exact s.readLoop_fault buf n stored noFault
      | _ => exact iff_of_true noFault (List.forall_mem_nil _)

/-- `sys_write` does not check its buffer, and an address behind the data pages ends the
run. -/
theorem exceptions_exact_write :
    let event : Event := .syscall (.write 1 0x200000 1)
    ∃ s', (boot sampleImage).handle event = some s' ∧ ¬ (boot sampleImage).Safe event ∧
      ((boot sampleImage).step event = some s' ↔ (boot sampleImage).Safe event) := by
  intro event
  have possible : ((boot sampleImage).handle event).isSome = true := by decide +kernel
  have ends : ((boot sampleImage).step event).isSome = false := by decide +kernel
  obtain ⟨s', handled⟩ := Option.isSome_iff_exists.mp possible
  have booted : Reachable sampleImage (boot sampleImage) := .start
  have exact_ := exceptions_exact booted (by decide +kernel) handled
  refine ⟨s', handled, fun safe => ?_, exact_⟩
  rw [exact_.mpr safe] at ends
  cases ends

end Kernel

end Zeos
