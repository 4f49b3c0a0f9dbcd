import Zeos.Space.Directories
import Zeos.Space.Protection

/-!
# The heap of several threads

`sys_clone` gives the child its parent's directory, but every PCB keeps its own
`heap`, `heapSize` and `heapPages`, and the child's `heapSize` is set to zero.
The copies agree as long as no process with a break is cloned and no process
moves the break of a directory that it shares.
-/

namespace Zeos

/-- Two PCBs have the same heap fields. -/
structure SameHeap (t u : TaskStruct) : Prop where
  heap : t.heap = u.heap
  heapSize : t.heapSize = u.heapSize
  heapPages : t.heapPages = u.heapPages

namespace SameHeap

variable {t u w : TaskStruct}

theorem refl (t : TaskStruct) : SameHeap t t := ⟨rfl, rfl, rfl⟩

theorem symm (same : SameHeap t u) : SameHeap u t :=
  ⟨same.heap.symm, same.heapSize.symm, same.heapPages.symm⟩

theorem trans (first : SameHeap t u) (second : SameHeap u w) : SameHeap t w where
  heap := first.heap.trans second.heap
  heapSize := first.heapSize.trans second.heapSize
  heapPages := first.heapPages.trans second.heapPages

theorem of_region (region : SameRegion t u) : SameHeap u t :=
  ⟨region.heap, region.heapSize, region.heapPages⟩

theorem iff_fields : SameHeap t u ↔ t.heap = u.heap ∧
    t.heapSize = u.heapSize ∧ t.heapPages = u.heapPages :=
  ⟨fun same => ⟨same.heap, same.heapSize, same.heapPages⟩,
    fun fields => ⟨fields.1, fields.2.1, fields.2.2⟩⟩

instance (t u : TaskStruct) : Decidable (SameHeap t u) :=
  decidable_of_iff _ iff_fields.symm

end SameHeap

/-! ## Calls of `sys_sbrk` that keep the heap fields -/

/-- The call is refused, moves the break by nothing, runs out of frames in its
loop, or lowers a break that is at the start of the heap and gives no page
back. -/
def KeepsHeap (increment : Int) (t : TaskStruct) (mm : Memory) : Prop :=
  (t.heap = 0 ∧ (increment < 0 ∨ mm.freeFrames = 0)) ∨
    (t.heap ≠ 0 ∧ (increment = 0 ∨
      (0 < increment ∧ mm.freeFrames < newPages increment t) ∨
      (increment < 0 ∧ t.heapSize = 0 ∧ pagesBack increment t = 0)))

instance (increment : Int) (t : TaskStruct) (mm : Memory) :
    Decidable (KeepsHeap increment t mm) := by
  unfold KeepsHeap
  infer_instance

section Sbrk

variable {t t' : TaskStruct} {mm mm' : Memory} {result : Int}

/-- Only an increment of zero leaves a C integer as it is. -/
theorem int32_add_eq_self {value increment : Int} (lower : -2 ^ 32 < increment)
    (upper : increment < 2 ^ 32) (same : int32 (value + increment) = value) :
    increment = 0 := by
  have congruent := Int.bmod_emod (x := value + increment) (m := 2 ^ 32)
  unfold int32 at same
  rw [same] at congruent
  omega

/-- Taking an increment back restores the break. -/
theorem grownSize_back {increment : Int} (positive : 0 < increment)
    (sized : int32 t.heapSize = t.heapSize) :
    int32 (grownSize increment t - increment) = t.heapSize := by
  have grown : grownSize increment t = int32 (t.heapSize + increment) :=
    if_neg (by omega)
  calc int32 (grownSize increment t - increment)
      = int32 (t.heapSize + increment - increment) := by
        rw [grown]
        exact Int.bmod_sub_bmod
    _ = t.heapSize := by rw [Int.add_sub_cancel, sized]

/-- A break at the start of the heap does not get lower. -/
theorem shrunkSize_bottom {increment : Int} (shrinking : increment < 0)
    (lower : -2 ^ 31 ≤ increment) (size : t.heapSize = 0) :
    shrunkSize increment t = 0 := by
  unfold shrunkSize
  rw [size, Int.zero_add, int32_of_range lower (by omega)]
  exact if_pos (by omega)

/-- Break values are C integers. -/
theorem SbrkEffect.sized {increment : Int}
    (effect : SbrkEffect increment t mm result t' mm')
    (sized : int32 t.heapSize = t.heapSize) :
    int32 t'.heapSize = t'.heapSize := by
  have openSized : ∀ {t₁ mm₁}, openHeap t mm = (t₁, mm₁) →
      int32 t₁.heapSize = t₁.heapSize := by
    intro t₁ mm₁ opened
    rcases openHeap_cases t mm with ⟨same, _⟩ | ⟨_, mm₂, first, _⟩
    · rw [same] at opened
      cases opened
      exact sized
    · rw [first] at opened
      cases opened
      exact sized
  cases effect with
  | refused _ _ => exact sized
  | grown _ opened _ =>
      dsimp only
      unfold grownSize
      split_ifs
      · exact openSized opened
      · exact int32_idem _
  | short _ _ _ _ _ => exact int32_idem _
  | shrunk _ _ _ =>
      dsimp only
      unfold shrunkSize
      split_ifs
      · rfl
      · exact int32_idem _

/-- A call that keeps the heap fields keeps every entry below the end of the
heap and every frame in use, and it gives no memory out. -/
structure HeapKept (increment : Int) (t : TaskStruct) (mm : Memory)
    (result : Int) (t' : TaskStruct) (mm' : Memory) : Prop where
  heap : SameHeap t' t
  entries : ∀ dir page, page < heapEnd t →
    mm'.pagusrTable dir page = mm.pagusrTable dir page
  frames : ∀ frame, mm.physMem frame = .usedFrame →
    mm'.physMem frame = .usedFrame
  memory : 0 < increment → result = -enomem

theorem sysSbrk_kept (increment : Int32) (t : TaskStruct) (mm : Memory)
    (nonneg : 0 ≤ t.heapPages) (sized : int32 t.heapSize = t.heapSize)
    (tidy : mm.Tidy) (keeps : KeepsHeap increment.toInt t mm)
    (noFault : (sysSbrk increment t mm).2.2.fault = false) :
    HeapKept increment.toInt t mm (sysSbrk increment t mm).1
      (sysSbrk increment t mm).2.1 (sysSbrk increment t mm).2.2 := by
  have unchanged : ∀ result : Int,
      (0 < increment.toInt → result = -enomem) →
      HeapKept increment.toInt t mm result t mm :=
    fun _ memory => ⟨.refl t, fun _ _ _ => rfl, fun _ => id, memory⟩
  rcases keeps with ⟨missing, refused⟩ | ⟨heap, moved⟩
  · rw [sysSbrk_refused increment missing refused]
    exact unchanged _ fun _ => rfl
  · have effect := sysSbrk_effect increment t mm nonneg noFault
    have unopened : openHeap t mm = (t, mm) := if_neg heap
    generalize sysSbrk increment t mm = call at effect noFault
    obtain ⟨result, t', mm'⟩ := call
    dsimp only at effect noFault ⊢
    have lower : -2 ^ 31 ≤ increment.toInt := Int32.le_toInt increment
    generalize increment.toInt = increment at *
    cases effect with
    | refused missing _ => exact absurd missing heap
    | grown growing opened maps =>
        rw [unopened] at opened
        cases opened
        have counted := maps.freeFrames
        rcases moved with rfl | ⟨_, few⟩ | ⟨shrinking, _⟩
        · have noPages : newPages 0 t = 0 := by simp [newPages]
          rw [noPages] at maps ⊢
          cases maps
          have size : grownSize 0 t = t.heapSize := if_pos rfl
          rw [size]
          simpa using unchanged (int32 (heapStart + t.heapSize))
            fun positive => absurd positive (lt_irrefl _)
        · omega
        · omega
    | @short t₁ mm₁ mm₂ _ k opened maps empty short released =>
        rw [unopened] at opened
        cases opened
        have positive := pos_of_newPages (Nat.ne_zero_of_lt short)
        have high : pagLogInitData ≤ heapEnd t :=
          le_trans (by decide) (le_heapEnd nonneg)
        have mapped := maps.edit tidy
        subst released
        have back := (releasePages_spec _ _ _ noFault).2.2.2
        have given := releasePages_holdings k _ mm₂ (mapped.tidy tidy)
          (by dsimp only; omega) noFault
        have fresh := maps.fresh high
        dsimp only at back given
        refine ⟨⟨rfl, grownSize_back positive sized, rfl⟩, ?_, ?_, fun _ => rfl⟩
        · intro dir page below
          have outside : ¬ Memory.Maps.Range (heapEnd t) k page := by omega
          have pages := heapEnd_eq nonneg
          rw [back.table dir page fun _ range => by omega,
            mapped.table dir page fun _ => outside]
        · intro frame used
          have stillUsed := (maps.held high).2.2.1 frame used
          refine (given.2 frame).mpr ⟨stillUsed, fun p lower upper holds => ?_⟩
          have pages := heapEnd_eq nonneg
          exact fresh p frame (by omega) holds used
    | shrunk shrinking _ released =>
        rcases moved with rfl | ⟨growing, _⟩ | ⟨_, size, none⟩
        · omega
        · omega
        · have bottom := shrunkSize_bottom shrinking lower size
          subst released
          rw [none, bottom, ← size]
          simpa [releasePages] using
            unchanged (int32 (heapStart + t.heapSize))
              fun positive => absurd positive (by omega)

/-- No other call keeps the heap fields. -/
theorem sysSbrk_kept_iff (increment : Int32) (t : TaskStruct) (mm : Memory)
    (nonneg : 0 ≤ t.heapPages) (sized : int32 t.heapSize = t.heapSize)
    (tidy : mm.Tidy) (noFault : (sysSbrk increment t mm).2.2.fault = false) :
    SameHeap (sysSbrk increment t mm).2.1 t ↔
      KeepsHeap increment.toInt t mm := by
  refine ⟨?_, fun keeps =>
    (sysSbrk_kept increment t mm nonneg sized tidy keeps noFault).heap⟩
  have effect := sysSbrk_effect increment t mm nonneg noFault
  generalize sysSbrk increment t mm = call at effect noFault
  obtain ⟨result, t', mm'⟩ := call
  dsimp only at effect noFault ⊢
  have lower : -2 ^ 31 ≤ increment.toInt := Int32.le_toInt increment
  have upper : increment.toInt < 2 ^ 31 := Int32.toInt_lt increment
  generalize increment.toInt = increment at *
  have openCases : ∀ {t₁ mm₁}, openHeap t mm = (t₁, mm₁) →
      t₁.heap = t.heap → t = t₁ ∧ mm = mm₁ ∧ (t.heap ≠ 0 ∨ mm.freeFrames = 0) := by
    intro t₁ mm₁ opened heap
    rcases openHeap_cases t mm with ⟨same, cause⟩ | ⟨missing, mm₂, first, _⟩
    · rw [same] at opened
      cases opened
      exact ⟨rfl, rfl, cause⟩
    · rw [first] at opened
      cases opened
      have start : (heapStart : Int) = t.heap := heap
      rw [missing] at start
      exact absurd start (by decide)
  cases effect with
  | refused missing cause => exact fun _ => Or.inl ⟨missing, cause⟩
  | grown growing opened maps =>
      intro same
      obtain ⟨rfl, rfl, cause⟩ := openCases opened same.heap
      have fixed : grownSize increment t = t.heapSize := same.heapSize
      by_cases missing : t.heap = 0
      · exact Or.inl ⟨missing, Or.inr (cause.resolve_left fun heap => heap missing)⟩
      · refine Or.inr ⟨missing, Or.inl ?_⟩
        unfold grownSize at fixed
        split_ifs at fixed with zero
        · exact zero
        · exact int32_add_eq_self (by omega) (by omega) fixed
  | @short t₁ mm₁ mm₂ _ k opened maps empty short released =>
      intro same
      obtain ⟨rfl, rfl, cause⟩ := openCases opened same.heap
      by_cases missing : t.heap = 0
      · exact Or.inl ⟨missing, Or.inr (cause.resolve_left fun heap => heap missing)⟩
      · have counted := maps.freeFrames
        exact Or.inr ⟨missing, Or.inr (Or.inl
          ⟨pos_of_newPages (Nat.ne_zero_of_lt short), by omega⟩)⟩
  | shrunk shrinking heap released =>
      intro same
      have size : shrunkSize increment t = t.heapSize := same.heapSize
      have pages : t.heapPages - pagesBack increment t = t.heapPages :=
        same.heapPages
      refine Or.inr ⟨heap, Or.inr (Or.inr ⟨shrinking, ?_, by omega⟩)⟩
      unfold shrunkSize at size
      split_ifs at size
      · exact size.symm
      · have zero := int32_add_eq_self (by omega) (by omega) size
        omega

end Sbrk

namespace Kernel

variable {s s' : Kernel} {event : Event} {image : BootImage} {u : TaskId}

/-! ## Threads -/

/-- Live processes with the same directory have the same heap fields. -/
def ThreadsAgree (s : Kernel) : Prop :=
  ∀ t u, s.live t = true → s.live u = true →
    (s.task t).dirPagesBaseAddr = (s.task u).dirPagesBaseAddr →
      SameHeap (s.task t) (s.task u)

/-- A call of `sys_sbrk` by the current process that leads to `s'` spares the
heap of the process `u`: the pages of that heap stay as they are, the memory
that the call returns is not part of it, and the frames of the pages below its
break stay in use. -/
structure SparesHeap (s : Kernel) (increment : Int32) (s' : Kernel)
    (u : TaskId) : Prop where
  entries : ∀ page, heapInitPage ≤ page →
    (page : Int) < heapInitPage + (s.task u).heapPages →
      s'.mm.pagusrTable (s.task u).dirPagesBaseAddr page =
        s.mm.pagusrTable (s.task u).dirPagesBaseAddr page
  memory : s'.eax s.current = -enomem ∨
    ∀ address, s'.eax s.current ≤ address →
      address < s'.eax s.current + increment.toInt →
        ¬ (heapStart ≤ address ∧ address < heapStart + (s.task u).heapSize)
  frames : ∀ page, heapInitPage ≤ page →
    (page * pageSize : Int) < heapStart + (s.task u).heapSize →
    (s.mm.pagusrTable (s.task u).dirPagesBaseAddr page).present = true →
    s.mm.physMem (s.mm.getFrame (s.task u).dirPagesBaseAddr page) = .usedFrame →
      s'.mm.physMem (s.mm.getFrame (s.task u).dirPagesBaseAddr page) = .usedFrame

/-- Another live process uses the directory of the current one. -/
def Shared (s : Kernel) : Prop :=
  ∃ u, u ≠ s.current ∧ s.Uses s.currentTask.dirPagesBaseAddr u

instance (s : Kernel) : Decidable s.Shared := by
  unfold Shared
  infer_instance

/-- A process that is cloned has its break at the start of the heap, a child is
not given the directory of a process with another heap, and a process that
shares its directory does not change its heap fields. -/
def HeapsKept (s : Kernel) : Event → Prop
  | .syscall (.clone function stack) =>
      accessOk .verifyWrite stack 4 = true →
        accessOk .verifyRead function 4 = true →
          s.queue .freequeue ≠ [] → s.currentTask.heapSize = 0
  | .syscall .fork =>
      s.queue .freequeue ≠ [] → s.forkPages ≤ s.mm.freeFrames →
        ∀ i, s.unusedDir = some i → ∀ u, s.Uses i u →
          SameHeap (s.task u) s.currentTask
  | .syscall (.sbrk increment) =>
      s.Shared → KeepsHeap increment.toInt s.currentTask s.mm
  | _ => True

instance (s : Kernel) : ∀ event, Decidable (HeapsKept s event)
  | .syscall (.clone _ _) => inferInstanceAs (Decidable (_ → _ → _ → _))
  | .syscall .fork => inferInstanceAs (Decidable (_ → _ → ∀ _, _ → ∀ _, _ → _))
  | .syscall (.sbrk _) => inferInstanceAs (Decidable (_ → _))
  | .syscall .exit | .syscall (.read ..) | .syscall (.write ..)
  | .syscall .gettime | .syscall .getpid | .syscall (.semInit ..)
  | .syscall (.semWait _) | .syscall (.semSignal _) | .syscall (.semDestroy _)
  | .syscall (.getStats ..) | .syscall .niSyscall
  | .clock | .keyboard .. | .badSyscall | .resume => isTrue trivial

theorem clone_denied {function stack : UInt32}
    (denied : ¬ accessOk .verifyWrite stack 4 ∨ ¬ accessOk .verifyRead function 4) :
    (s.systemCall (.clone function stack)).live = s.live := by
  change ((s.userToSysStats.sysClone function stack).2.sysReturn
    (s.userToSysStats.sysClone function stack).1).live = s.live
  unfold sysClone
  rw [if_pos denied]
  rfl

/-- The break of every PCB is a C integer. -/
def Sized (s : Kernel) : Prop :=
  ∀ t, int32 (s.task t).heapSize = (s.task t).heapSize

theorem sized_effect (mapped : s.Mapped) (sized : s.Sized)
    (effect : SpaceEffect s event s') (noFault : s'.mm.fault = false) :
    s'.Sized := by
  have kept : ∀ {t t' : TaskStruct}, SameRegion t t' →
      int32 t.heapSize = t.heapSize → int32 t'.heapSize = t'.heapSize := by
    intro t t' region before
    rw [region.heapSize]
    exact before
  intro t
  cases effect with
  | same space => exact kept (space.region t) (sized t)
  | exited _ region _ _ => exact kept (region t) (sized t)
  | @forkFailed child _ _ _ _ taken _ _ _ =>
      by_cases isChild : t = child
      · subst isChild
        exact kept taken.own (sized s.current)
      · exact kept (taken.others t isChild) (sized t)
  | @forked child _ _ _ _ taken _ _ _ =>
      by_cases isChild : t = child
      · subst isChild
        exact kept taken.own (sized s.current)
      · exact kept (taken.others t isChild) (sized t)
  | @cloned _ _ child _ _ _ others own _ _ =>
      by_cases isChild : t = child
      · subst isChild
        exact kept own rfl
      · exact kept (others t isChild) (sized t)
  | moved others own _ after =>
      by_cases isCurrent : t = s.current
      · subst isCurrent
        rw [after] at noFault
        have call := sysSbrk_effect _ _ _ (mapped.nonneg s.current) noFault
        exact kept own (call.sized (sized s.current))
      · exact kept (others t isCurrent) (sized t)

theorem boot_sized (image : BootImage) : (boot image).Sized := by
  intro t
  rw [((boot_space image).1 t).heapSize]
  rfl

/-- What the invariant below rests on in every run. -/
structure Housed (s : Kernel) : Prop where
  orderly : s.Orderly
  mapped : s.Mapped
  sized : s.Sized

theorem housed_of_reachable (run : Reachable image s) : s.Housed := by
  refine ⟨orderly_of_reachable run, mapped_of_reachable run, ?_⟩
  refine Library.Reach.invariant_over Sized (boot_sized image)
    (fun _ plain => (⟨orderly_of_reachable plain, mapped_of_reachable plain⟩ :
      Orderly _ ∧ Mapped _)) ?_ run
  intro before event after base sized _ taken
  exact sized_effect base.2 sized (handle_space base.1 (handle_of_step taken))
    (fault_of_step taken)

/-- A free PCB that becomes a process agrees with the others if it agrees with
those who use its directory. -/
theorem ThreadsAgree.born {child : TaskId} {caller : TaskStruct}
    (agree : s.ThreadsAgree)
    (others : ∀ t, t ≠ child → SameRegion (s.task t) (s'.task t))
    (own : SameHeap (s'.task child) caller)
    (live : s'.live = Function.update s.live child true)
    (users : ∀ t, s.Uses (s'.task child).dirPagesBaseAddr t →
      SameHeap (s.task t) caller) : s'.ThreadsAgree := by
  have old : ∀ {t}, t ≠ child → s'.live t = true → s.live t = true := by
    intro t notChild alive
    rw [live, Function.update_of_ne notChild] at alive
    exact alive
  have withChild : ∀ t, t ≠ child → s'.live t = true →
      (s'.task t).dirPagesBaseAddr = (s'.task child).dirPagesBaseAddr →
        SameHeap (s'.task t) (s'.task child) := by
    intro t notChild alive shared
    have region := others t notChild
    have uses : s.Uses (s'.task child).dirPagesBaseAddr t :=
      ⟨old notChild alive, by rw [← region.dirPagesBaseAddr, shared]⟩
    exact (SameHeap.of_region region).trans ((users t uses).trans own.symm)
  intro t u tLive uLive shared
  by_cases tChild : t = child
  · by_cases uChild : u = child
    · rw [tChild, uChild]
      exact .refl _
    · subst tChild
      exact (withChild u uChild uLive shared.symm).symm
  · by_cases uChild : u = child
    · subst uChild
      exact withChild t tChild tLive shared
    · have tRegion := others t tChild
      have uRegion := others u uChild
      rw [tRegion.dirPagesBaseAddr, uRegion.dirPagesBaseAddr] at shared
      have before := agree t u (old tChild tLive) (old uChild uLive) shared
      exact (SameHeap.of_region tRegion).trans
        (before.trans (SameHeap.of_region uRegion).symm)

/-- Processes that stay as they are, some of them perhaps gone, still agree. -/
theorem ThreadsAgree.kept (agree : s.ThreadsAgree)
    (region : ∀ t, s'.live t = true →
      SameRegion (s.task t) (s'.task t) ∧ s.live t = true) :
    s'.ThreadsAgree := by
  intro t u tLive uLive shared
  obtain ⟨tRegion, tBefore⟩ := region t tLive
  obtain ⟨uRegion, uBefore⟩ := region u uLive
  rw [tRegion.dirPagesBaseAddr, uRegion.dirPagesBaseAddr] at shared
  exact (SameHeap.of_region tRegion).trans
    ((agree t u tBefore uBefore shared).trans (SameHeap.of_region uRegion).symm)

theorem agree_effect (housed : s.Housed) (agree : s.ThreadsAgree)
    (kept : HeapsKept s event) (handled : s.handle event = some s')
    (noFault : s'.mm.fault = false) : s'.ThreadsAgree := by
  have alive : s.live s.current = true := housed.orderly.settled.currentLive
  cases handle_space housed.orderly handled with
  | same space =>
      apply agree.kept
      intro t live
      rw [space.live] at live
      exact ⟨space.region t, live⟩
  | exited _ region live _ =>
      apply agree.kept
      intro t stillLive
      rw [live] at stillLive
      by_cases isCurrent : t = s.current
      · subst isCurrent
        rw [Function.update_self] at stillLive
        cases stillLive
      · rw [Function.update_of_ne isCurrent] at stillLive
        exact ⟨region t, stillLive⟩
  | @forkFailed child _ _ _ _ taken _ live _ =>
      have dead := housed.orderly.dead taken.member
      apply agree.kept
      intro t stillLive
      rw [live] at stillLive
      refine ⟨taken.others t ?_, stillLive⟩
      rintro rfl
      rw [dead] at stillLive
      cases stillLive
  | forked taken reserved live after =>
      rw [after] at noFault
      obtain ⟨reservedFault, _⟩ := forkSpace_spec s _ _ noFault
      have counted := (Memory.reserveData_done reserved reservedFault).freeFrames
      change s.mm.freeFrames = _ at counted
      have enough : s.forkPages ≤ s.mm.freeFrames := by omega
      have inherits : SameHeap (s'.task _) s.currentTask :=
        ⟨taken.own.heap, taken.own.heapSize, taken.own.heapPages⟩
      apply agree.born taken.others inherits live
      rw [taken.own.dirPagesBaseAddr]
      dsimp only
      intro t uses
      cases found : s.unusedDir with
      | some i =>
          have chosen := taken.chosen
          rw [found, Option.getD_some] at chosen
          rw [chosen] at uses
          exact kept (List.ne_nil_of_mem taken.member) enough i found t uses
      | none =>
          have chosen := taken.chosen
          rw [found, Option.getD_none] at chosen
          rw [chosen] at uses
          exact agree t s.current uses.1 alive uses.2
  | @cloned function stack child _ member _ others own live after =>
      have dead := housed.orderly.dead member
      have granted : accessOk .verifyWrite stack 4 = true ∧
          accessOk .verifyRead function 4 = true := by
        by_contra denied
        rw [not_and_or] at denied
        have unborn := clone_denied (s := s) denied
        rw [syscall_of_handle handled, live] at unborn
        have same := congrFun unborn child
        rw [Function.update_self, dead] at same
        cases same
      have start := kept granted.1 granted.2 (List.ne_nil_of_mem member)
      have inherits : SameHeap (s'.task child) s.currentTask :=
        ⟨own.heap, own.heapSize.trans start.symm, own.heapPages⟩
      apply agree.born others inherits live
      rw [own.dirPagesBaseAddr]
      exact fun t uses => agree t s.current uses.1 alive uses.2
  | moved others own live after =>
      rw [after] at noFault
      have sameDir : (s'.task s.current).dirPagesBaseAddr =
          s.currentTask.dirPagesBaseAddr := moved_dirs others own _
      have withCurrent : ∀ t, t ≠ s.current → s'.live t = true →
          (s'.task t).dirPagesBaseAddr =
            (s'.task s.current).dirPagesBaseAddr →
          SameHeap (s'.task t) (s'.task s.current) := by
        intro t different tLive shared
        have region := others t different
        rw [live] at tLive
        rw [sameDir, region.dirPagesBaseAddr] at shared
        have keeps := kept ⟨t, different, tLive, shared⟩
        have call := sysSbrk_kept _ _ _ (housed.mapped.nonneg s.current)
          (housed.sized s.current) housed.mapped.tidy keeps noFault
        have before := agree t s.current tLive alive shared
        exact (SameHeap.of_region region).trans
          (before.trans (call.heap.symm.trans (SameHeap.of_region own).symm))
      intro t u tLive uLive shared
      by_cases tCurrent : t = s.current
      · by_cases uCurrent : u = s.current
        · rw [tCurrent, uCurrent]
          exact .refl _
        · subst tCurrent
          exact (withCurrent u uCurrent uLive shared.symm).symm
      · by_cases uCurrent : u = s.current
        · subst uCurrent
          exact withCurrent t tCurrent tLive shared
        · have tRegion := others t tCurrent
          have uRegion := others u uCurrent
          rw [live] at tLive uLive
          rw [tRegion.dirPagesBaseAddr, uRegion.dirPagesBaseAddr] at shared
          exact (SameHeap.of_region tRegion).trans
            ((agree t u tLive uLive shared).trans
              (SameHeap.of_region uRegion).symm)

/-- A call of `sys_sbrk` that is allowed spares the heaps of the caller's other
threads. -/
theorem sbrk_spares (housed : s.Housed) (agree : s.ThreadsAgree)
    {increment : Int32} (kept : HeapsKept s (.syscall (.sbrk increment)))
    (taken : s.step (.syscall (.sbrk increment)) = some s')
    (different : u ≠ s.current) (uses : s.Uses s.currentTask.dirPagesBaseAddr u) :
    SparesHeap s increment s' u := by
  have noFault := fault_of_step taken
  have shape := syscall_of_handle (handle_of_step taken)
  have memory : s'.mm = (Zeos.sysSbrk increment s.currentTask s.mm).2.2 := by
    rw [← shape]
    rfl
  have result : s'.eax s.current =
      (Zeos.sysSbrk increment s.currentTask s.mm).1 := by
    rw [← shape]
    exact Function.update_self _ _ _
  rw [memory] at noFault
  have call := sysSbrk_kept increment _ _ (housed.mapped.nonneg s.current)
    (housed.sized s.current) housed.mapped.tidy (kept ⟨u, different, uses⟩)
    noFault
  have alive : s.live s.current = true := housed.orderly.settled.currentLive
  have same := agree u s.current uses.1 alive uses.2
  constructor
  · intro page _ inHeap
    rw [memory]
    apply call.entries
    rw [same.heapPages] at inHeap
    unfold heapEnd
    omega
  · by_cases positive : 0 < increment.toInt
    · exact Or.inl (result.trans (call.memory positive))
    · refine Or.inr fun address lower upper => ?_
      omega
  · intro page _ _ _ used
    rw [memory]
    exact call.frames _ used

/-- Threads see one heap: their heap fields agree, and no call of `sys_sbrk`
that the runs in question allow touches the heap of another thread. -/
structure OneHeap (s : Kernel) : Prop where
  agree : s.ThreadsAgree
  spares : ∀ increment s' u, HeapsKept s (.syscall (.sbrk increment)) →
    s.step (.syscall (.sbrk increment)) = some s' → u ≠ s.current →
      s.Uses s.currentTask.dirPagesBaseAddr u → SparesHeap s increment s' u

theorem boot_agree (image : BootImage) : (boot image).ThreadsAgree := by
  intro t u _ _ _
  have tRegion := (boot_space image).1 t
  have uRegion := (boot_space image).1 u
  constructor
  · rw [tRegion.heap, uRegion.heap]
  · rw [tRegion.heapSize, uRegion.heapSize]
  · rw [tRegion.heapPages, uRegion.heapPages]

/-- In a run that clones no process with a break, gives no child the directory
of a process with another heap, and moves no break of a shared directory,
threads see one heap. -/
theorem one_heap {image : BootImage} (run : ReachableUnder HeapsKept image s) :
    OneHeap s := by
  have agree : s.ThreadsAgree := by
    refine Library.Reach.invariant_over ThreadsAgree (boot_agree image)
      (fun _ plain => housed_of_reachable plain) ?_ run
    intro before event after housed agree kept taken
    exact agree_effect housed agree kept (handle_of_step taken)
      (fault_of_step taken)
  have plain : Reachable image s := run.mono fun _ _ _ => trivial
  refine ⟨agree, fun increment s' u kept taken different uses => ?_⟩
  exact sbrk_spares (housed_of_reachable plain) agree kept taken different uses

/-- The first process makes a heap, moves its break back and clones a thread, which has the
heap too. -/
theorem one_heap_cloned :
    let events : List Event := [.syscall (.sbrk 10), .syscall (.sbrk (-10)),
      .syscall (.clone 0x100000 0x110000)]
    ∃ s, Library.runEvents (Library.guarded step HeapsKept) (boot sampleImage) events = some s ∧
      s.live 2 = true ∧ (s.task 2).heapPages = 1 ∧ OneHeap s := by
  intro events
  obtain ⟨s, finished, seen⟩ := (Option.any_eq_true _ _).mp
    (show (Library.runEvents (Library.guarded step HeapsKept) (boot sampleImage) events).any
      (fun s => decide (s.live 2 = true ∧ (s.task 2).heapPages = 1)) = true by decide +kernel)
  obtain ⟨live, pages⟩ := of_decide_eq_true seen
  exact ⟨s, finished, live, pages, one_heap (Library.Reach.of_guarded finished)⟩

/-- A thread that is made after its parent moved the break believes that the
heap is empty. -/
theorem cloned_break_differs : ∃ s, Reachable sampleImage s ∧
    ¬ s.ThreadsAgree := by
  refine ⟨Library.lastState step (boot sampleImage)
      [.syscall (.sbrk 10), .syscall (.clone 0x100000 0x110000)],
    Library.Reach.lastState fun _ _ _ => trivial, fun agree => ?_⟩
  have threads : let s := (Library.lastState step (boot sampleImage)
        [.syscall (.sbrk 10), .syscall (.clone 0x100000 0x110000)])
      s.live 1 = true ∧ s.live 2 = true ∧
        (s.task 1).dirPagesBaseAddr = (s.task 2).dirPagesBaseAddr ∧
        (s.task 1).heapSize ≠ (s.task 2).heapSize := by
    decide +kernel
  obtain ⟨parent, child, shared, different⟩ := threads
  exact different (agree 1 2 parent child shared).heapSize

end Kernel

end Zeos
