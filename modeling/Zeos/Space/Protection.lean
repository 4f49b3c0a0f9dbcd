import Zeos.Space.Calls

/-!
# The protection of kernel and code pages

`init_table_pages` and `set_user_pages` write the entries below the data pages
once.  Only a fork that succeeds writes them again, and it does so with
`set_ss_pag`, which makes every page present, writable and accessible to the
user.
-/

namespace Zeos

namespace Kernel

variable {s s' : Kernel} {event : Event} {image : BootImage}

/-- The protections of boot hold in the address space of every live process. -/
structure KernelProtected (taskPage : Nat) (s : Kernel) : Prop where
  system : ∀ t, s.live t = true → ∀ page, page < numPagKernel →
    (s.mm.pagusrTable (s.task t).dirPagesBaseAddr page).present = true →
      (s.mm.pagusrTable (s.task t).dirPagesBaseAddr page).user = false
  guards : ∀ t, s.live t = true → ∀ page,
    page = 0 ∨ page = taskPage ∨ page = taskPage + 11 →
      (s.mm.pagusrTable (s.task t).dirPagesBaseAddr page).present = false
  code : ∀ t, s.live t = true → ∀ page, pagLogInitCode ≤ page →
    page < pagLogInitCode + numPagCode →
      (s.mm.pagusrTable (s.task t).dirPagesBaseAddr page).rw = false

/-- A fork fails: there is no free PCB, or there are too few frames. -/
def ForksFail (s : Kernel) : Event → Prop
  | .syscall .fork => s.queue .freequeue = [] ∨ s.mm.freeFrames < s.forkPages
  | _ => True

instance (s : Kernel) (event : Event) : Decidable (ForksFail s event) := by
  cases event with
  | syscall call =>
      cases call with
      | fork => exact inferInstanceAs (Decidable (_ ∨ _))
      | _ => exact isTrue trivial
  | _ => exact isTrue trivial

/-- The entries below the data pages are those of boot. -/
def LowEntriesKept (image : BootImage) (s : Kernel) : Prop :=
  ∀ dir page, page < pagLogInitData →
    s.mm.pagusrTable dir page = (boot image).mm.pagusrTable dir page

theorem LowEntriesKept.edit {touched : Nat → Prop} {dir : DirId}
    {mm : Memory} (kept : LowEntriesKept image s)
    (edit : Memory.Edit dir touched mm s'.mm)
    (tables : mm.pagusrTable = s.mm.pagusrTable)
    (high : ∀ page, touched page → pagLogInitData ≤ page) :
    LowEntriesKept image s' := by
  intro d page low
  have untouched : ¬ touched page := fun isTouched =>
    absurd (high page isTouched) (Nat.not_le.mpr low)
  rw [edit.table d page fun _ => untouched, tables]
  exact kept d page low

theorem lowEntries_effect (mapped : s.Mapped) (kept : LowEntriesKept image s)
    (fails : ForksFail s event) (effect : SpaceEffect s event s')
    (noFault : s'.mm.fault = false) : LowEntriesKept image s' := by
  cases effect with
  | same space =>
      intro dir page low
      rw [space.tables.pagusrTable]
      exact kept dir page low
  | exited tables _ _ after =>
      rw [after] at noFault
      have edit := (Memory.releaseDir_spec _ _ noFault).1
      rw [← after] at edit
      exact kept.edit edit tables.pagusrTable fun page range => range.2.1
  | forkFailed _ failed _ after =>
      rw [← after] at failed
      obtain ⟨_, _, _, _, _, edit, _⟩ := Memory.reserveData_failed failed noFault
        (Tidy.withUses mapped.tidy _)
      exact kept.edit edit rfl fun page range => range.1
  | forked taken reserved _ after =>
      rw [after] at noFault
      obtain ⟨reservedFault, _⟩ := forkSpace_spec s _ _ noFault
      have counted := (Memory.reserveData_done reserved reservedFault).freeFrames
      change s.mm.freeFrames = _ at counted
      rcases fails with none | few
      · exact absurd none (List.ne_nil_of_mem taken.member)
      · omega
  | cloned _ _ _ _ _ after =>
      intro dir page low
      rw [after]
      exact kept dir page low
  | moved _ _ _ after =>
      rw [after] at noFault
      have call := sysSbrk_effect _ _ _ (mapped.nonneg s.current) noFault
      have edit := (call.edit (mapped.nonneg s.current) mapped.tidy noFault).1
      change Memory.Edit _ _ s.mm
        (Zeos.sysSbrk _ s.currentTask s.mm).2.2 at edit
      rw [← after] at edit
      exact kept.edit edit rfl fun page high => le_trans (by decide) high

/-- The entries of boot are protected. -/
theorem LowEntriesKept.kernelProtected (kept : LowEntriesKept image s) :
    KernelProtected image.taskPage s := by
  have bounds : numPagKernel = 256 ∧ pagLogInitCode = 256 ∧ numPagCode = 8 ∧
      pagLogInitData = 264 ∧ heapInitPage = 284 := ⟨rfl, rfl, rfl, rfl, rfl⟩
  have kernelEntry : ∀ dir page, page < numPagKernel →
      s.mm.pagusrTable dir page =
        Memory.initTablePages image.taskPage page := by
    intro dir page low
    rw [kept dir page (by omega), boot_table]
    unfold Memory.userTable
    rw [if_neg (show ¬ (pagLogInitCode ≤ page ∧ page < heapInitPage) by omega),
      ite_self]
  constructor
  · intro t _ page low present
    rw [kernelEntry _ page low]
    unfold Memory.initTablePages
    split_ifs <;> rfl
  · intro t _ page isGuard
    have inKernel := image.taskPage_lt
    rw [kernelEntry _ page (by omega)]
    unfold Memory.initTablePages
    split_ifs with mapped
    · have unmapped : ¬ (page ≠ image.taskPage ∧ page ≠ image.taskPage + 11) := by
        omega
      simp only [unmapped, decide_false]
    · rfl
  · intro t _ page lower upper
    rw [kept _ page (by omega), boot_table]
    have readOnly : decide (pagLogInitData ≤ page) = false :=
      decide_eq_false (by omega)
    have notKernel : ¬ (1 ≤ page ∧ page < numPagKernel) := by omega
    unfold Memory.userTable Memory.initTablePages
    rw [readOnly, if_neg notKernel]
    split_ifs <;> rfl

/-- In a run in which every fork fails, the protections of boot hold in every
address space. -/
theorem kernel_protected {image : BootImage}
    (run : ReachableUnder ForksFail image s) :
    KernelProtected image.taskPage s := by
  have kept : LowEntriesKept image s := by
    refine Library.Reach.invariant_over (LowEntriesKept image)
      (fun _ _ _ => rfl)
      (fun _ plain => (⟨orderly_of_reachable plain, mapped_of_reachable plain⟩ :
        Orderly _ ∧ Mapped _)) ?_ run
    intro before event after base kept fails taken
    exact lowEntries_effect base.2 kept fails
      (handle_space base.1 (handle_of_step taken)) (fault_of_step taken)
  exact kept.kernelProtected

theorem kernel_protected_cloned :
    let events : List Event := [.syscall (.sbrk 5000), .syscall (.clone 0x100000 0x110000),
      .syscall .exit, .resume]
    ∃ s, Library.runEvents (Library.guarded step ForksFail) (boot sampleImage) events = some s ∧
      KernelProtected 22 s := by
  intro events
  obtain ⟨s, finished⟩ := Option.isSome_iff_exists.mp
    (show (Library.runEvents (Library.guarded step ForksFail) (boot sampleImage)
      events).isSome = true by decide +kernel)
  exact ⟨s, finished, @kernel_protected _ sampleImage (Library.Reach.of_guarded finished)⟩

/-- After one fork the child can read and write the kernel's pages. -/
theorem fork_unprotected : ∃ s, Reachable sampleImage s ∧
    ¬ KernelProtected sampleImage.taskPage s := by
  refine ⟨Library.lastState step (boot sampleImage) [.syscall .fork],
    Library.Reach.lastState fun _ _ _ => trivial, fun closed => ?_⟩
  have child : let s := Library.lastState step (boot sampleImage) [.syscall .fork]
      s.live 2 = true ∧
        (s.mm.pagusrTable (s.task 2).dirPagesBaseAddr 1).present = true ∧
        (s.mm.pagusrTable (s.task 2).dirPagesBaseAddr 1).user = true := by
    decide +kernel
  obtain ⟨live, present, user⟩ := child
  have noAccess := closed.system 2 live 1 (by decide) present
  rw [user] at noAccess
  cases noAccess

end Kernel

end Zeos
