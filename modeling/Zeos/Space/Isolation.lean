import Zeos.Space.Exclusive
import Zeos.Space.Neighbours
import Zeos.Space.UserMemory

/-!
# A process at rest keeps its memory

Programs store to their pages, and the kernel copies, forks, moves breaks and
exits on their behalf.  As long as no process of its directory runs, the data
and heap bytes of a process stay as they are: what the others reach is mapped
in their own table, and a frame that the kernel fills anew was mapped nowhere.
-/

namespace Zeos

open Library (Holdings)

namespace Memory

variable {mm mm' : Memory} {dir : DirId}

/-- A store of one byte by code at the user's privilege level; `none` stands for
the page fault, from whose handler ZeOS does not return. -/
def userStore (mm : Memory) (dir : DirId) (address : UInt32) (value : UInt8) :
    Option Memory :=
  let page := address.toNat / pageSize
  let entry := mm.pagusrTable dir page
  if page < totalPages ∧ entry.present ∧ entry.user ∧ entry.rw then
    some (mm.storeByte dir address value)
  else
    none

theorem userStore_cases {address : UInt32} {value : UInt8}
    (stored : mm.userStore dir address value = some mm') :
    (∃ ram, mm' = { mm with ram := ram }) ∧
      ∀ frame offset, mm'.ram frame offset ≠ mm.ram frame offset →
        mm.translate dir (address.toNat / pageSize) = some frame := by
  unfold userStore at stored
  dsimp only at stored
  split_ifs at stored with allowed
  cases stored
  have found : mm.translate dir (address.toNat / pageSize) =
      some (mm.getFrame dir (address.toNat / pageSize)) :=
    if_pos ⟨allowed.1, allowed.2.1⟩
  refine ⟨?_, fun frame offset changed => (storeByte_ram changed).1⟩
  unfold storeByte
  rw [found]
  exact ⟨_, rfl⟩

/-! ## Frames that change hands keep their contents -/

theorem freeUserPages_ram (mm : Memory) (dir : DirId) :
    (mm.freeUserPages dir).ram = mm.ram := by
  rw [freeUserPages_eq]
  exact givePages_ram dir _ mm

theorem releaseDir_ram (mm : Memory) (pos : DirId) :
    (Kernel.releaseDir mm pos).ram = mm.ram := by
  unfold Kernel.releaseDir
  dsimp only
  split_ifs
  · exact freeUserPages_ram _ pos
  · rfl

end Memory

theorem releasePages_ram (count : Nat) (t : TaskStruct) (mm : Memory) :
    (releasePages count t mm).2.ram = mm.ram := by
  induction count generalizing t mm with
  | zero => rfl
  | succ count inductionHypothesis =>
      have freed : ∀ frame index, ((mm.freeFrame frame).delSsPag t.dirPagesBaseAddr
          index).ram = mm.ram := by
        intro frame index
        unfold Memory.delSsPag
        rw [Memory.setEntry_ram]
        unfold Memory.freeFrame
        split_ifs <;> rfl
      rw [releasePages]
      split_ifs
      · rw [inductionHypothesis, freed]
      · rw [inductionHypothesis]
        exact freed _ _
      · rfl

theorem openHeap_ram (t : TaskStruct) (mm : Memory) : (openHeap t mm).2.ram = mm.ram := by
  rcases openHeap_cases t mm with ⟨same, _⟩ | ⟨_, mm₁, opened, maps⟩
  · rw [same]
  · rw [opened]
    exact maps.ram

theorem SbrkEffect.ram {increment result : Int} {t t' : TaskStruct} {mm mm' : Memory}
    (effect : SbrkEffect increment t mm result t' mm') : mm'.ram = mm.ram := by
  have first := openHeap_ram t mm
  cases effect with
  | refused _ _ => rfl
  | grown _ opened maps =>
      rw [opened] at first
      exact maps.ram.trans first
  | short opened maps _ _ released =>
      rw [opened] at first
      rw [← released, releasePages_ram]
      exact maps.ram.trans first
  | shrunk _ _ released => rw [← released, releasePages_ram]

/-! ## Frames that are mapped nowhere else stay so -/

theorem Memory.Maps.reserved {dir : DirId} {first count frame : Nat} {mm mm' : Memory}
    (maps : Memory.Maps dir first count mm mm') (high : pagLogInitData ≤ first)
    (reserved : mm.holdings.Reserved frame) : mm'.holdings.Reserved frame := by
  obtain ⟨outside, _, kept, _⟩ := maps.held high
  refine reserved.mono (kept frame) ?_
  rintro ⟨d, p⟩ holds
  by_cases range : d = dir ∧ Memory.Maps.Range first count p
  · obtain ⟨rfl, inRange⟩ := range
    exact Or.inr (maps.fresh high p frame inRange holds)
  · rw [outside d p fun same inRange => range ⟨same, inRange⟩] at holds
    exact Or.inl holds

theorem releasePages_reserved {count frame : Nat} {t : TaskStruct} {mm : Memory}
    (tidy : mm.Tidy) (enough : (count : Int) ≤ t.heapPages)
    (noFault : (releasePages count t mm).2.fault = false)
    (reserved : mm.holdings.Reserved frame) :
    (releasePages count t mm).2.holdings.Reserved frame := by
  obtain ⟨held, used⟩ := releasePages_holdings count t mm tidy enough noFault
  refine reserved.mono (fun before => ?_) ?_
  · exact (used frame).mpr ⟨before, fun p _ _ => reserved.2 _⟩
  · rintro ⟨d, p⟩ holds
    rw [held d p] at holds
    split_ifs at holds
    exact Or.inl holds

theorem SbrkEffect.reserved {increment result : Int} {t t' : TaskStruct}
    {mm mm' : Memory} {frame : Nat} (effect : SbrkEffect increment t mm result t' mm')
    (tidy : mm.Tidy) (nonneg : 0 ≤ t.heapPages) (noFault : mm'.fault = false)
    (reserved : mm.holdings.Reserved frame) : mm'.holdings.Reserved frame := by
  have opens : ∀ {t₁ mm₁}, openHeap t mm = (t₁, mm₁) →
      mm₁.Tidy ∧ 0 ≤ t₁.heapPages ∧ pagLogInitData ≤ heapEnd t₁ ∧
        mm₁.holdings.Reserved frame := by
    intro t₁ mm₁ opened
    have pages := (openHeap_pcb opened nonneg).1
    refine ⟨(openHeap_edit tidy opened).tidy tidy, pages,
      le_trans (by decide) (le_heapEnd pages), ?_⟩
    rcases openHeap_cases t mm with ⟨same, _⟩ | ⟨_, mm₂, first, maps⟩
    · rw [same] at opened
      cases opened
      exact reserved
    · rw [first] at opened
      cases opened
      exact maps.reserved (by decide) reserved
  cases effect with
  | refused _ _ => exact reserved
  | grown _ opened maps =>
      obtain ⟨_, _, high, before⟩ := opens opened
      exact maps.reserved high before
  | short opened maps _ _ released =>
      obtain ⟨before, pages, high, kept⟩ := opens opened
      rw [← released] at noFault ⊢
      refine releasePages_reserved ((maps.edit before).tidy before) ?_ noFault
        (maps.reserved high kept)
      dsimp only
      omega
  | shrunk _ _ released =>
      rw [← released] at noFault ⊢
      exact releasePages_reserved tidy (pagesBack_le nonneg noFault) noFault reserved

namespace Kernel

variable {s s' : Kernel} {event : Event} {image : BootImage} {t : TaskId}
  {frame offset : Nat}

/-! ## What a step writes -/

/-- The byte is one of those that the kernel copies to the user at the event. -/
def Delivers (s : Kernel) (event : Event) (frame offset : Nat) : Prop :=
  ∃ x ∈ s.transfers event, x.kind = .verifyWrite ∧ ∃ address ∈ x.bytes,
    s.mm.translate s.cr3 (address.toNat / pageSize) = some frame ∧
      address.toNat % pageSize = offset

theorem delivery_kind {buf : UInt32} {n : Int} {stored : List UInt8} {x : Transfer}
    (member : x ∈ s.delivery buf n stored) : x.kind = .verifyWrite := by
  unfold delivery at member
  split_ifs at member
  · cases member
  · rw [List.mem_singleton.mp member]

theorem getStatsTransfers_kind {pid : Int32} {st : UInt32} {x : Transfer}
    (member : x ∈ s.getStatsTransfers pid st) : x.kind = .verifyWrite := by
  unfold getStatsTransfers at member
  split_ifs at member
  · cases member
  · rw [List.mem_singleton.mp member]

theorem clone_ram (s : Kernel) (function stack : UInt32) :
    (s.systemCall (.clone function stack)).mm.ram = s.mm.ram := by
  change (s.userToSysStats.sysClone function stack).2.mm.ram = _
  unfold sysClone
  split_ifs
  · rfl
  · rfl
  · split <;> rfl

theorem keyboard_mm (s : Kernel) (scancode beyond : UInt8) :
    (s.keyboardRoutine scancode beyond).mm = s.mm := by
  unfold keyboardRoutine
  split_ifs
  · dsimp only
    split_ifs
    · split
      · exact ((Keeps.unblock _ _).trans (Keeps.schedNextRr _ _)).mm
      · rfl
    · rfl
  · rfl

theorem fork_writes (orderly : s.Orderly) (mapped : s.Mapped) (paged : s.Paged)
    (taken : s.step (.syscall .fork) = some s')
    (changed : s'.mm.ram frame offset ≠ s.mm.ram frame offset) :
    frame ∈ s.takenFrames := by
  rcases fork_outcome orderly mapped paged taken with
    ⟨_, refused⟩ | ⟨child, failed⟩ | ⟨child, succeeded⟩
  · rw [refused] at changed
    exact absurd rfl changed
  · obtain ⟨uses, _, reserved⟩ := failed.reserved
    have ram := (Memory.reserveData_failed_table reserved (fault_of_step taken)).2
    change s'.mm.ram = s.mm.ram at ram
    rw [ram] at changed
    exact absurd rfl changed
  · by_contra outside
    rw [succeeded.forked.spared frame outside] at changed
    exact absurd rfl changed

/-- Besides a fork, which fills the frames that it takes, a system call writes
the bytes that it delivers. -/
theorem call_writes (orderly : s.Orderly) (mapped : s.Mapped) {call : Syscall}
    (taken : s.step (.syscall call) = some s') (notFork : call ≠ .fork)
    (changed : s'.mm.ram frame offset ≠ s.mm.ram frame offset) :
    s.Delivers (.syscall call) frame offset := by
  have noFault := fault_of_step taken
  have handled := handle_of_step taken
  have called := syscall_of_handle handled
  have busy : s.current ≠ s.idleTask := by
    rw [handle] at handled
    split_ifs at handled with able
    exact able.2
  have entered := orderly.userToSysStats
  subst called
  have unchanged : (s.systemCall call).mm.ram = s.mm.ram →
      s.Delivers (.syscall call) frame offset := fun same =>
    absurd (by rw [same]) changed
  cases call with
  | fork => exact absurd rfl notFork
  | exit =>
      apply unchanged
      rw [(exit_state orderly busy).2.2.2]
      exact Memory.releaseDir_ram s.mm _
  | read fd buf count =>
      apply unchanged
      change (complete (s.userToSysStats.sysRead fd buf count)).mm.ram = _
      rcases sysRead_cases entered.cbIsEmpty fd buf count with
        ⟨_, result, failed⟩ | ⟨_, waits⟩
      · rw [failed]
        rfl
      · rw [waits]
        exact congrArg Memory.ram (((Keeps.block _ _ _).trans (Keeps.schedNextRr _ _)).mm)
  | write fd buffer size =>
      apply unchanged
      obtain ⟨console, fault, written⟩ := s.userToSysStats.sysWrite_cases fd buffer size
      change (s.userToSysStats.sysWrite fd buffer size).2.mm.ram = _
      rw [written]
      rfl
  | sbrk increment =>
      apply unchanged
      have effect := sysSbrk_effect increment s.currentTask s.mm
        (mapped.nonneg s.current) noFault
      exact effect.ram
  | clone function stack => exact unchanged (clone_ram s function stack)
  | semInit nSem value =>
      exact unchanged (congrArg Memory.ram (sysSemInit_keeps _ nSem value).mm)
  | semWait nSem =>
      apply unchanged
      have keeps := sysSemWait_keeps s.userToSysStats nSem
      change (complete (s.userToSysStats.sysSemWait nSem)).mm.ram = _
      cases answer : s.userToSysStats.sysSemWait nSem with
      | mk result after =>
          rw [answer] at keeps
          cases result with
          | none => exact congrArg Memory.ram keeps.mm
          | some value => exact congrArg Memory.ram keeps.mm
  | semSignal nSem =>
      exact unchanged (congrArg Memory.ram (sysSemSignal_quiet entered.refines
        entered.settled busy nSem).2.mm)
  | semDestroy nSem =>
      exact unchanged (congrArg Memory.ram (sysSemDestroy_quiet entered.refines
        entered.settled busy nSem).2.mm)
  | getStats pid st =>
      obtain ⟨x, member, touched⟩ := sysGetStats_writes (s := s.userToSysStats) changed
      have listed : x ∈ s.getStatsTransfers pid st := member
      exact ⟨x, listed, getStatsTransfers_kind listed, touched⟩
  | gettime => exact unchanged rfl
  | getpid => exact unchanged rfl
  | niSyscall => exact unchanged rfl

/-- A step writes the frames that a fork takes, and what the kernel delivers to
the process that runs. -/
theorem step_writes (orderly : s.Orderly) (mapped : s.Mapped) (paged : s.Paged)
    (taken : s.step event = some s')
    (changed : s'.mm.ram frame offset ≠ s.mm.ram frame offset) :
    (event = .syscall .fork ∧ frame ∈ s.takenFrames) ∨
      s.Delivers event frame offset := by
  have handled := handle_of_step taken
  cases event with
  | clock =>
      rw [handle] at handled
      split_ifs at handled
      cases handled
      exact absurd (by rw [clockRoutine, (Keeps.schedule _).mm]) changed
  | keyboard scancode beyond =>
      rw [handle] at handled
      split_ifs at handled
      cases handled
      exact absurd (by rw [keyboard_mm]) changed
  | syscall call =>
      by_cases isFork : call = .fork
      · subst isFork
        exact Or.inl ⟨rfl, fork_writes orderly mapped paged taken changed⟩
      · exact Or.inr (call_writes orderly mapped taken isFork changed)
  | badSyscall =>
      rw [handle] at handled
      split_ifs at handled
      cases handled
      exact absurd rfl changed
  | resume =>
      rw [handle] at handled
      split_ifs at handled
      cases handled
      right
      unfold resume at changed
      split at changed
      · exact absurd rfl changed
      · exact absurd rfl changed
      · exact absurd rfl changed
      · exact absurd rfl changed
      · next buf n stored reading =>
          obtain ⟨x, member, touched⟩ := readLoop_writes changed
          have listed : x ∈ s.transfers .resume := by
            unfold transfers
            rw [reading]
            exact member
          exact ⟨x, listed, delivery_kind member, touched⟩
      · exact absurd rfl changed

/-! ## What a step keeps -/

theorem reserved_effect (mapped : s.Mapped) (effect : SpaceEffect s event s')
    (noFault : s'.mm.fault = false) (reserved : s.mm.holdings.Reserved frame) :
    s'.mm.holdings.Reserved frame := by
  cases effect with
  | same space =>
      rw [Memory.holdings_congr space.tables.pagusrTable space.tables.physMem]
      exact reserved
  | exited tables _ _ after =>
      rw [after] at noFault ⊢
      have given := (Memory.releaseDir_spec _ _ noFault).2
        (tidy_congr tables mapped.tidy)
      rw [given, Memory.holdings_congr tables.pagusrTable tables.physMem]
      split_ifs
      · exact reserved.surrenderAll _
      · exact reserved
  | forkFailed _ failed _ after =>
      rw [after] at noFault ⊢
      obtain ⟨_, _, _, _, maps, _, given⟩ := Memory.reserveData_failed failed noFault
        (Tidy.withUses mapped.tidy _)
      rw [given]
      exact (maps.reserved (Nat.le_refl _) reserved).surrenderAll _
  | forked _ reservation _ after =>
      rw [after] at noFault ⊢
      obtain ⟨reservedFault, _, _, vacated⟩ := forkSpace_spec s _ _ noFault
      have maps := Memory.reserveData_done reservation reservedFault
      rw [vacated]
      exact (maps.reserved (Nat.le_refl _) reserved).vacateAll _
  | cloned _ _ _ _ _ after =>
      rw [after]
      exact reserved
  | moved _ _ _ after =>
      rw [after] at noFault ⊢
      have parent : 0 ≤ s.currentTask.heapPages := mapped.nonneg s.current
      exact (sysSbrk_effect _ _ _ parent noFault).reserved mapped.tidy parent noFault
        reserved

/-- Nobody's code pages get frames that were nobody's: a child's are its
parent's. -/
theorem codeFrames_effect (orderly : s.Orderly) (mapped : s.Mapped) (paged : s.Paged)
    (taken : s.step event = some s') (dir : DirId) {page : Nat}
    (low : page < pagLogInitData) :
    ∃ d, s'.mm.getFrame dir page = s.mm.getFrame d page := by
  have noFault := fault_of_step taken
  have kept : s'.mm.pagusrTable dir page = s.mm.pagusrTable dir page →
      ∃ d, s'.mm.getFrame dir page = s.mm.getFrame d page := fun same =>
    ⟨dir, congrArg PageTableEntry.pbaseAddr same⟩
  cases handle_space orderly (handle_of_step taken) with
  | same space => exact kept (by rw [space.tables.pagusrTable])
  | exited tables _ _ after =>
      apply kept
      rw [after] at noFault ⊢
      rw [(Memory.releaseDir_spec _ _ noFault).1.table dir page fun _ range =>
        absurd range.2.1 (Nat.not_le.mpr low)]
      exact congrFun (congrFun tables.pagusrTable dir) page
  | forkFailed _ failed _ after =>
      apply kept
      rw [after] at noFault ⊢
      obtain ⟨_, _, _, _, _, edit, _⟩ := Memory.reserveData_failed failed noFault
        (Tidy.withUses mapped.tidy _)
      exact edit.table dir page fun _ range => absurd range.1 (Nat.not_le.mpr low)
  | forked forkTaken _ live _ =>
      have dead := orderly.dead forkTaken.member
      have succeeded := fork_born orderly mapped paged taken dead (by simp [live])
      have entry := succeeded.forked.table dir page
      unfold forkedEntry at entry
      rw [if_neg (by omega), if_neg (by omega)] at entry
      by_cases child : dir = s.chosenDir
      · rw [if_pos ⟨child, low⟩] at entry
        refine ⟨s.parentDir, ?_⟩
        rw [Memory.getFrame, entry]
        rfl
      · rw [if_neg fun both => child both.1] at entry
        exact kept entry
  | cloned _ _ _ _ _ after => exact kept (by rw [after])
  | moved _ _ _ after =>
      apply kept
      rw [after] at noFault ⊢
      have parent : 0 ≤ s.currentTask.heapPages := mapped.nonneg s.current
      have edit := ((sysSbrk_effect _ _ _ parent noFault).edit parent mapped.tidy
        noFault).1
      have bounds : pagLogInitData ≤ heapInitPage := by decide
      exact edit.table dir page fun _ high => by omega

/-- With exact counts, a child's directory has no user. -/
theorem chosenDir_unused {child : TaskId} (counted : ∀ i, s.mm.dirCounter i = s.users i)
    (dead : s.live child = false) : s.users s.chosenDir = 0 := by
  have zero : ∀ i, s.mm.dirCounter i = 0 ↔ s.users i = 0 := by
    intro i
    rw [counted]
    exact Int.natCast_eq_zero
  obtain ⟨i, nobody⟩ := exists_unused dead
  cases first : s.unusedDir with
  | none =>
      have used := List.find?_eq_none.mp first i (List.mem_finRange i)
      exact absurd ((zero i).mpr nobody) (by simpa using used)
  | some j =>
      have chosen : s.chosenDir = j := congrArg (Option.getD · s.parentDir) first
      rw [chosen, ← zero]
      simpa using List.find?_some first

/-- The directory of the process is not the one that the step works in, unless
the step is an interrupt. -/
def Rests (s : Kernel) (t : TaskId) : Event → Prop
  | .clock => True
  | .keyboard _ _ => True
  | _ => (s.task t).dirPagesBaseAddr ≠ s.parentDir

/-- The process is live, and its directory maps the data and heap pages that it
did. -/
structure KeepsPages (t : TaskId) (s s' : Kernel) : Prop where
  live : s'.live t = true
  dir : (s'.task t).dirPagesBaseAddr = (s.task t).dirPagesBaseAddr
  table : ∀ page, pagLogInitData ≤ page →
    s'.mm.pagusrTable (s.task t).dirPagesBaseAddr page =
      s.mm.pagusrTable (s.task t).dirPagesBaseAddr page

theorem pages_kept (orderly : s.Orderly) (mapped : s.Mapped) (paged : s.Paged)
    (counted : ∀ i, s.mm.dirCounter i = s.users i) (complete : ForksComplete s event)
    (taken : s.step event = some s') (alive : s.live t = true)
    (rests : s.Rests t event) : KeepsPages t s s' := by
  have noFault := fault_of_step taken
  have notCurrent : (s.task t).dirPagesBaseAddr ≠ s.parentDir → t ≠ s.current :=
    fun other same => other (by rw [same]; rfl)
  cases handle_space orderly (handle_of_step taken) with
  | same space =>
      refine ⟨by rw [space.live]; exact alive, (space.region t).dirPagesBaseAddr, ?_⟩
      intro page _
      rw [space.tables.pagusrTable]
  | exited tables region live after =>
      have other : (s.task t).dirPagesBaseAddr ≠ s.parentDir := rests
      refine ⟨?_, (region t).dirPagesBaseAddr, fun page _ => ?_⟩
      · rw [live, Function.update_of_ne (notCurrent other)]
        exact alive
      · rw [after] at noFault ⊢
        rw [(Memory.releaseDir_spec _ _ noFault).1.table _ page fun same =>
          absurd same other]
        exact congrFun (congrFun tables.pagusrTable _) page
  | forkFailed forkTaken failed _ after =>
      have enough := complete (List.ne_nil_of_mem forkTaken.member)
      rw [after] at noFault
      obtain ⟨k, _, short, few, _⟩ := Memory.reserveData_failed failed noFault
        (Tidy.withUses mapped.tidy _)
      change s.mm.freeFrames = k at few
      omega
  | @forked child _ _ _ _ forkTaken _ live _ =>
      have other : (s.task t).dirPagesBaseAddr ≠ s.parentDir := rests
      have dead := orderly.dead forkTaken.member
      have succeeded := fork_born orderly mapped paged taken dead (by simp [live])
      have notChild : t ≠ child := fun same => by
        rw [same, dead] at alive
        cases alive
      have notChosen : (s.task t).dirPagesBaseAddr ≠ s.chosenDir := by
        intro same
        exact users_eq_zero_iff.mp (chosenDir_unused counted dead) t ⟨alive, same⟩
      refine ⟨?_, (succeeded.others t notChild).dirPagesBaseAddr, fun page _ => ?_⟩
      · rw [live, Function.update_of_ne notChild]
        exact alive
      · rw [succeeded.forked.table, forkedEntry, if_neg fun both => other both.1,
          if_neg fun both => notChosen both.1, if_neg fun both => notChosen both.1]
  | @cloned _ _ child _ member _ others _ live after =>
      have notChild : t ≠ child := fun same => by
        rw [same, orderly.dead member] at alive
        cases alive
      refine ⟨?_, (others t notChild).dirPagesBaseAddr, fun page _ => by rw [after]⟩
      rw [live, Function.update_of_ne notChild]
      exact alive
  | moved others own live after =>
      have other : (s.task t).dirPagesBaseAddr ≠ s.parentDir := rests
      refine ⟨by rw [live]; exact alive, moved_dirs others own t, fun page _ => ?_⟩
      rw [after] at noFault ⊢
      have parent : 0 ≤ s.currentTask.heapPages := mapped.nonneg s.current
      exact ((sysSbrk_effect _ _ _ parent noFault).edit parent mapped.tidy
        noFault).1.table _ page fun same => absurd same other

end Kernel

/-! ## Programs and the kernel -/

/-- What happens next: the kernel reacts to an event, or the program that runs
stores a byte. -/
inductive MachineEvent where
  | kernel (event : Event)
  | store (address : UInt32) (value : UInt8)

namespace Kernel

variable {s s' : Kernel} {event : Event} {image : BootImage} {t : TaskId}
  {frame : Nat}

/-- One step of the machine.  The idle task runs no program. -/
def machineStep (s : Kernel) : MachineEvent → Option Kernel
  | .kernel event => s.step event
  | .store address value =>
      if s.mode = .user ∧ s.current ≠ s.idleTask then
        (s.mm.userStore s.cr3 address value).map fun mm => { s with mm := mm }
      else
        none

/-- The kernel copies to addresses of user pages only. -/
def WritesUser (s : Kernel) (event : Event) : Prop :=
  ∀ x ∈ s.transfers event, x.kind = .verifyWrite → ∀ address ∈ x.bytes,
    pagLogInitCode ≤ address.toNat / pageSize

instance (s : Kernel) (event : Event) : Decidable (s.WritesUser event) := by
  unfold WritesUser
  infer_instance

/-- No call of `sys_sbrk` frees the frame of a page that stays mapped, no fork
runs out of frames, and the variables of the kernel, which a child's table lets
it write, are left alone. -/
def Confined (s : Kernel) : MachineEvent → Prop
  | .kernel event => SbrkSound s event ∧ ForksComplete s event ∧ s.WritesUser event
  | .store address _ => pagLogInitCode ≤ address.toNat / pageSize

instance (s : Kernel) : ∀ event, Decidable (s.Confined event)
  | .kernel event => inferInstanceAs
      (Decidable (SbrkSound s event ∧ ForksComplete s event ∧ s.WritesUser event))
  | .store address _ =>
      inferInstanceAs (Decidable (pagLogInitCode ≤ address.toNat / pageSize))

/-- No process of the directory of `t` runs in the step. -/
def AtRest (t : TaskId) (s : Kernel) : MachineEvent → Prop
  | .kernel event => s.Rests t event
  | .store _ _ => (s.task t).dirPagesBaseAddr ≠ s.parentDir

instance (s : Kernel) (t : TaskId) : ∀ event, Decidable (s.Rests t event)
  | .clock => inferInstanceAs (Decidable True)
  | .keyboard _ _ => inferInstanceAs (Decidable True)
  | .syscall _ => inferInstanceAs (Decidable (_ ≠ _))
  | .badSyscall => inferInstanceAs (Decidable (_ ≠ _))
  | .resume => inferInstanceAs (Decidable (_ ≠ _))

instance (t : TaskId) (s : Kernel) : ∀ event, Decidable (s.AtRest t event)
  | .kernel event => inferInstanceAs (Decidable (s.Rests t event))
  | .store _ _ => inferInstanceAs (Decidable (_ ≠ _))

/-- The kernel is in order, and no frame serves two directories, besides those
of the code pages. -/
structure Separate (s : Kernel) : Prop where
  orderly : s.Orderly
  mapped : s.Mapped
  paged : s.Paged
  counted : ∀ i, s.mm.dirCounter i = s.users i
  exclusive : s.mm.holdings.Exclusive
  code : ∀ dir page, pagLogInitCode ≤ page → page < pagLogInitData →
    s.mm.holdings.Reserved (s.mm.getFrame dir page)

theorem boot_separate (image : BootImage) : (boot image).Separate where
  orderly := boot_orderly image
  mapped := boot_mapped image
  paged := boot_paged image
  counted := boot_counted image
  exclusive := boot_exclusive image
  code dir page isCode low := by
    have bounds : numPagKernel = 256 ∧ pagLogInitCode = 256 ∧ pagLogInitData = 264 ∧
        heapInitPage = 284 ∧ numPagCode + numPagData = 28 := ⟨rfl, rfl, rfl, rfl, rfl⟩
    have empty : Memory.initTablePages image.taskPage page = {} := if_neg (by omega)
    have frame : (boot image).mm.getFrame dir page =
        if dir = 1 then numPagKernel + 2 * (page - pagLogInitCode) else 0 := by
      rw [Memory.getFrame, boot_table, empty]
      split_ifs
      · rw [Memory.userTable, if_pos (by omega)]
      · rfl
    refine ⟨(boot_used image _).mpr ?_, ?_⟩
    · rw [frame]
      split_ifs <;> omega
    · rintro ⟨d, p⟩ holds
      unfold Memory.holdings at holds
      dsimp only at holds
      split_ifs at holds with held
      have same := Option.some.inj holds
      have data := boot_dataEntry image d held.1
      have present := held.2
      rw [data] at present
      split_ifs at present with isData
      rw [frame, Memory.getFrame, data, if_pos isData] at same
      dsimp only at same
      split_ifs at same <;> omega

theorem Separate.store {ram : Nat → Nat → UInt8} (separate : s.Separate) :
    ({ s with mm := { s.mm with ram := ram } } : Kernel).Separate where
  orderly := ⟨⟨separate.orderly.refines.threads, rfl⟩, separate.orderly.settled,
    separate.orderly.contexts, separate.orderly.cbIsEmpty⟩
  mapped := ⟨⟨separate.mapped.tidy.firstUsed, separate.mapped.tidy.present,
    separate.mapped.tidy.absent⟩, separate.mapped.nonneg⟩
  paged := separate.paged
  counted := separate.counted
  exclusive := separate.exclusive
  code := separate.code

theorem Separate.handled (separate : s.Separate) (sound : SbrkSound s event)
    (complete : ForksComplete s event) (taken : s.step event = some s') :
    s'.Separate := by
  obtain ⟨orderly, mapped, paged, counted, exclusive, code⟩ := separate
  have handled := handle_of_step taken
  have effect := handle_space orderly handled
  have noFault := fault_of_step taken
  refine ⟨orderly.step taken, mapped.effect effect noFault,
    paged.handle orderly handled,
    counted_effect orderly mapped counted complete effect noFault,
    exclusive_effect mapped exclusive sound effect noFault, ?_⟩
  intro dir page isCode low
  obtain ⟨d, same⟩ := codeFrames_effect orderly mapped paged taken dir low
  rw [same]
  exact reserved_effect mapped effect noFault (code d page isCode low)

theorem Separate.step {event : MachineEvent} (separate : s.Separate)
    (confined : s.Confined event) (taken : s.machineStep event = some s') :
    s'.Separate := by
  cases event with
  | kernel event => exact separate.handled confined.1 confined.2.1 taken
  | store address value =>
      rw [machineStep] at taken
      split_ifs at taken
      obtain ⟨mm, stored, rfl⟩ := Option.map_eq_some_iff.mp taken
      obtain ⟨ram, rfl⟩ := (Memory.userStore_cases stored).1
      exact separate.store

/-! ## Other processes' frames are out of reach -/

/-- A frame that the running process reaches at a user page is not one of those
that another directory maps as data or heap. -/
theorem Separate.apart (separate : s.Separate) {dir : DirId} {page reached : Nat}
    (other : dir ≠ s.parentDir) (held : s.mm.holdings.held (dir, page) = some frame)
    (user : pagLogInitCode ≤ reached) : s.mm.translate s.cr3 reached ≠ some frame := by
  intro found
  unfold Memory.translate at found
  split_ifs at found with present
  have same : s.mm.getFrame s.cr3 reached = frame := Option.some.inj found
  by_cases data : pagLogInitData ≤ reached
  · have own := Memory.held_eq_some s.mm s.cr3 data present.2
    rw [same] at own
    have place := separate.exclusive.single _ _ _ held own
    exact other ((congrArg Prod.fst place).trans separate.paged)
  · have reserved := separate.code s.cr3 reached user (by omega)
    rw [same] at reserved
    exact reserved.2 _ held

/-- The bytes of the frames that a directory maps as data or heap are kept. -/
def KeepsContents (dir : DirId) (s s' : Kernel) : Prop :=
  ∀ page frame, s.mm.holdings.held (dir, page) = some frame →
    ∀ offset, s'.mm.ram frame offset = s.mm.ram frame offset

theorem contents_kept (separate : s.Separate) (user : s.WritesUser event)
    (taken : s.step event = some s') (rests : s.Rests t event) :
    KeepsContents (s.task t).dirPagesBaseAddr s s' := by
  intro page frame held offset
  by_contra changed
  rcases step_writes separate.orderly separate.mapped separate.paged taken changed with
    ⟨_, isTaken⟩ | ⟨x, member, isWrite, address, inBlock, found, _⟩
  · have free := (Memory.mem_freeList.mp (List.mem_of_mem_take isTaken)).2
    have used : s.mm.physMem frame = .usedFrame := separate.exclusive.valid _ _ held
    rw [free] at used
    cases used
  · have other : (s.task t).dirPagesBaseAddr ≠ s.parentDir := by
      cases event with
      | clock => cases member
      | keyboard _ _ => cases member
      | syscall _ => exact rests
      | badSyscall => exact rests
      | resume => exact rests
    exact separate.apart other held (user x member isWrite address inBlock) found

/-- The process is live, and loads find the same data and heap bytes. -/
structure KeepsMemory (t : TaskId) (s s' : Kernel) : Prop where
  live : s'.live t = true
  byte : ∀ address : UInt32, pagLogInitData * pageSize ≤ address.toNat →
    s'.mm.loadByte (s'.task t).dirPagesBaseAddr address =
      s.mm.loadByte (s.task t).dirPagesBaseAddr address

theorem KeepsPages.memory (pages : KeepsPages t s s')
    (contents : KeepsContents (s.task t).dirPagesBaseAddr s s') : KeepsMemory t s s' := by
  refine ⟨pages.live, fun address high => ?_⟩
  have page : pagLogInitData ≤ address.toNat / pageSize :=
    (Nat.le_div_iff_mul_le (by decide)).mpr high
  have entry := pages.table _ page
  rw [pages.dir]
  unfold Memory.loadByte Memory.translate Memory.getFrame
  rw [entry]
  split_ifs with present
  · have held := Memory.held_eq_some s.mm _ page present.2
    exact congrArg some (contents _ _ held _)
  · rfl

theorem KeepsMemory.step {event : MachineEvent} (separate : s.Separate)
    (alive : s.live t = true) (confined : s.Confined event) (rests : s.AtRest t event)
    (taken : s.machineStep event = some s') : KeepsMemory t s s' := by
  cases event with
  | kernel event =>
      obtain ⟨_, complete, user⟩ := confined
      have pages := pages_kept separate.orderly separate.mapped separate.paged
        separate.counted complete taken alive rests
      exact pages.memory (contents_kept separate user taken rests)
  | store address value =>
      rw [machineStep] at taken
      split_ifs at taken
      obtain ⟨mm, stored, rfl⟩ := Option.map_eq_some_iff.mp taken
      obtain ⟨⟨ram, rfl⟩, reached⟩ := Memory.userStore_cases stored
      refine KeepsPages.memory ⟨alive, rfl, fun _ _ => rfl⟩ fun page frame held offset => ?_
      by_contra changed
      exact separate.apart rests held confined (reached frame offset changed)

/-- In every run, the data and heap bytes of a process stay as they are while no
process of its directory runs, whatever the others store, and ask of the
kernel. -/
theorem memory_isolated {image : BootImage}
    (run : Library.Reach machineStep Confined (boot image) s) (alive : s.live t = true)
    (later : Library.Reach machineStep
      (fun state event => state.Confined event ∧ state.AtRest t event) s s') :
    KeepsMemory t s s' := by
  have separate : s.Separate :=
    run.invariant (boot_separate image) fun _ _ _ separate confined taken =>
      separate.step confined taken
  have both : s'.Separate ∧ KeepsMemory t s s' := by
    induction later with
    | start => exact ⟨separate, alive, fun _ _ => rfl⟩
    | step _ allowed taken inductionHypothesis =>
        obtain ⟨inOrder, kept⟩ := inductionHypothesis
        have once := KeepsMemory.step inOrder kept.live allowed.1 allowed.2 taken
        exact ⟨inOrder.step allowed.1 taken, once.live, fun address high =>
          (once.byte address high).trans (kept.byte address high)⟩
  exact both.2

/-- The first process makes a child, stores to its own data and grows its heap;
the child still finds zero where its parent finds the new byte. -/
theorem memory_isolated_forked :
    let s := Library.lastState (Library.guarded machineStep Confined) (boot sampleImage)
      [.kernel (.syscall .fork)]
    let s' := Library.lastState (Library.guarded machineStep
        fun state event => state.Confined event ∧ state.AtRest 2 event) s
      [.store 0x108000 7, .kernel (.syscall (.sbrk 5000)), .kernel .clock]
    KeepsMemory 2 s s' ∧ s'.mm.loadByte (s'.task 1).dirPagesBaseAddr 0x108000 = some 7 ∧
      s.mm.loadByte (s.task 2).dirPagesBaseAddr 0x108000 = some 0 := by
  intro s s'
  have run : Library.Reach machineStep Confined (boot sampleImage) s :=
    (Library.Reach.lastState fun _ _ _ => trivial).guarded
  have later : Library.Reach machineStep
      (fun state event => state.Confined event ∧ state.AtRest 2 event) s s' :=
    (Library.Reach.lastState fun _ _ _ => trivial).guarded
  have alive : s.live 2 = true := by decide +kernel
  exact ⟨memory_isolated run alive later, by decide +kernel, by decide +kernel⟩

end Kernel

end Zeos
