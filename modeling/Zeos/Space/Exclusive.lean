import Zeos.Space.Calls

/-!
# Frames are mapped once

Every frame that a data or heap page maps is in use and mapped nowhere else,
as long as `sys_sbrk` never leaves the entry of a page whose frame it has
freed.  It does so when it gives pages back, in the shrinking branch and in the
error path of the growing one.
-/

namespace Zeos

open Library (Holdings)

namespace Kernel

variable {s s' : Kernel} {event : Event} {image : BootImage}

/-- Data and heap pages of live processes map frames in use, each frame
once. -/
structure FramesExclusive (s : Kernel) : Prop where
  used : ∀ t, s.live t = true → ∀ page, pagLogInitData ≤ page →
    (s.mm.pagusrTable (s.task t).dirPagesBaseAddr page).present = true →
      s.mm.physMem (s.mm.getFrame (s.task t).dirPagesBaseAddr page) = .usedFrame
  single : ∀ t u, s.live t = true → s.live u = true → ∀ page page',
    pagLogInitData ≤ page → pagLogInitData ≤ page' →
    (s.mm.pagusrTable (s.task t).dirPagesBaseAddr page).present = true →
    (s.mm.pagusrTable (s.task u).dirPagesBaseAddr page').present = true →
    s.mm.getFrame (s.task t).dirPagesBaseAddr page =
      s.mm.getFrame (s.task u).dirPagesBaseAddr page' →
      (s.task t).dirPagesBaseAddr = (s.task u).dirPagesBaseAddr ∧ page = page'

/-- The event is not a call of `sys_sbrk` that frees the frame of a page whose
entry stays: a shrinking call that gives pages back, the lowest of which is
mapped, or a growing call that runs out of frames after the first of its
loop. -/
def SbrkSound (s : Kernel) : Event → Prop
  | .syscall (.sbrk increment) =>
      (s.currentTask.heap ≠ 0 →
        pagesBack increment.toInt s.currentTask ≠ 0 →
          (s.mm.pagusrTable s.currentTask.dirPagesBaseAddr
            (heapEnd s.currentTask -
              pagesBack increment.toInt s.currentTask)).present = false) ∧
        (newPages increment.toInt (openHeap s.currentTask s.mm).1 ≤
            (openHeap s.currentTask s.mm).2.freeFrames ∨
          (openHeap s.currentTask s.mm).2.freeFrames = 0)
  | _ => True

instance (s : Kernel) (event : Event) : Decidable (SbrkSound s event) := by
  unfold SbrkSound
  split <;> infer_instance

theorem openHeap_exclusive {t t₁ : TaskStruct} {mm mm₁ : Memory}
    (exclusive : mm.holdings.Exclusive) (opened : openHeap t mm = (t₁, mm₁)) :
    mm₁.holdings.Exclusive := by
  rcases openHeap_cases t mm with ⟨same, _⟩ | ⟨_, mm₂, first, maps⟩
  · rw [same] at opened
    cases opened
    exact exclusive
  · rw [first] at opened
    cases opened
    exact maps.exclusive (by decide) exclusive

/-- Giving pages back keeps frames exclusive when the lowest page was not
mapped. -/
theorem releasePages_exclusive {count : Nat} {t : TaskStruct} {mm : Memory}
    (exclusive : mm.holdings.Exclusive) (tidy : mm.Tidy)
    (enough : (count : Int) ≤ t.heapPages)
    (unmapped : count ≠ 0 →
      (mm.pagusrTable t.dirPagesBaseAddr (heapEnd t - count)).present = false)
    (noFault : (releasePages count t mm).2.fault = false) :
    (releasePages count t mm).2.holdings.Exclusive := by
  obtain ⟨held, used⟩ := releasePages_holdings count t mm tidy enough noFault
  have stillHeld : ∀ place r,
      (releasePages count t mm).2.holdings.held place = some r →
        ¬ (place.1 = t.dirPagesBaseAddr ∧
          heapInitPage + t.heapPages - count < place.2 ∧
          place.2 ≤ heapInitPage + t.heapPages) ∧
        mm.holdings.held place = some r := by
    intro place r holds
    rw [held place.1 place.2] at holds
    split_ifs at holds with emptied
    exact ⟨emptied, holds⟩
  apply exclusive.mono
  · intro place r holds
    exact (stillHeld place r holds).2
  · intro place r holds usedBefore
    obtain ⟨notEmptied, before⟩ := stillHeld place r holds
    refine (used r).mpr ⟨usedBefore, fun p lower upper other => ?_⟩
    have same := exclusive.single place _ r before other
    subst same
    -- of the pages that lose their frames, only the lowest keeps its entry
    have lowest : p = heapEnd t - count := by
      simp only [true_and] at notEmptied
      unfold heapEnd
      omega
    have gone := Memory.held_eq_none mm t.dirPagesBaseAddr
      (unmapped (by omega))
    rw [← lowest, before] at gone
    cases gone

theorem sbrk_exclusive {increment result : Int} {t t' : TaskStruct}
    {mm mm' : Memory} (exclusive : mm.holdings.Exclusive) (tidy : mm.Tidy)
    (nonneg : 0 ≤ t.heapPages)
    (back : t.heap ≠ 0 → pagesBack increment t ≠ 0 →
      (mm.pagusrTable t.dirPagesBaseAddr
        (heapEnd t - pagesBack increment t)).present = false)
    (complete : newPages increment (openHeap t mm).1 ≤
        (openHeap t mm).2.freeFrames ∨ (openHeap t mm).2.freeFrames = 0)
    (effect : SbrkEffect increment t mm result t' mm')
    (noFault : mm'.fault = false) : mm'.holdings.Exclusive := by
  have high : ∀ {t₁ mm₁}, openHeap t mm = (t₁, mm₁) →
      pagLogInitData ≤ heapEnd t₁ := fun opened =>
    le_trans (by decide) (le_heapEnd (openHeap_pcb opened nonneg).1)
  cases effect with
  | refused _ _ => exact exclusive
  | grown _ opened maps =>
      exact maps.exclusive (high opened) (openHeap_exclusive exclusive opened)
  | @short t₁ mm₁ mm₂ _ k opened maps empty short released =>
      have counted := maps.freeFrames
      rw [opened] at complete
      dsimp only at complete
      have none : k = 0 := by omega
      subst none
      subst released
      exact maps.exclusive (high opened) (openHeap_exclusive exclusive opened)
  | shrunk _ exists_ released =>
      subst released
      exact releasePages_exclusive exclusive tidy (pagesBack_le nonneg noFault)
        (back exists_) noFault

theorem exclusive_effect (mapped : s.Mapped)
    (exclusive : s.mm.holdings.Exclusive) (sound : SbrkSound s event)
    (effect : SpaceEffect s event s') (noFault : s'.mm.fault = false) :
    s'.mm.holdings.Exclusive := by
  cases effect with
  | same space =>
      rw [Memory.holdings_congr space.tables.pagusrTable space.tables.physMem]
      exact exclusive
  | exited tables _ _ after =>
      rw [after] at noFault ⊢
      have given := (Memory.releaseDir_spec _ _ noFault).2
        (tidy_congr tables mapped.tidy)
      rw [given, Memory.holdings_congr tables.pagusrTable tables.physMem]
      split_ifs
      · exact exclusive.surrenderAll _
      · exact exclusive
  | forkFailed _ failed _ after =>
      rw [← after] at failed
      exact (Memory.reserveData_failed_holdings failed noFault
        (Tidy.withUses mapped.tidy _)).2.2 exclusive
  | forked _ reserved _ after =>
      rw [after] at noFault ⊢
      obtain ⟨reservedFault, _, _, vacated⟩ := forkSpace_spec s _ _ noFault
      have maps := Memory.reserveData_done reserved reservedFault
      rw [vacated]
      exact (maps.exclusive (Nat.le_refl _) exclusive).vacateAll _
  | cloned _ _ _ _ _ after =>
      rw [after]
      exact exclusive
  | moved _ _ _ after =>
      rw [after] at noFault ⊢
      have parent : 0 ≤ s.currentTask.heapPages := mapped.nonneg s.current
      exact sbrk_exclusive exclusive mapped.tidy parent sound.1 sound.2
        (sysSbrk_effect _ _ _ parent noFault) noFault

theorem boot_exclusive (image : BootImage) :
    (boot image).mm.holdings.Exclusive := by
  have bounds : numPagKernel = 256 ∧ pagLogInitCode = 256 ∧
      pagLogInitData = 264 ∧ heapInitPage = 284 ∧
      numPagCode + numPagData = 28 := ⟨rfl, rfl, rfl, rfl, rfl⟩
  have held : ∀ place f, (boot image).mm.holdings.held place = some f →
      place.1 = 1 ∧ pagLogInitData ≤ place.2 ∧ place.2 < heapInitPage ∧
        f = numPagKernel + 2 * (place.2 - pagLogInitCode) := by
    intro place f holds
    unfold Memory.holdings Memory.getFrame at holds
    dsimp only at holds
    by_cases high : pagLogInitData ≤ place.2
    · rw [boot_dataEntry image place.1 high] at holds
      by_cases isData : place.1 = 1 ∧ place.2 < heapInitPage
      · simp only [if_pos isData, and_true, if_pos high, Option.some_inj] at holds
        exact ⟨isData.1, high, isData.2, holds.symm⟩
      · simp only [if_neg isData, Bool.false_eq_true, and_false, if_false] at holds
        cases holds
    · rw [if_neg fun both => high both.1] at holds
      cases holds
  constructor
  · intro place f holds
    obtain ⟨_, lower, upper, frame⟩ := held place f holds
    have used := (boot_used image f).mpr (by omega)
    exact used
  · intro place place' f first second
    obtain ⟨isUser, lower, _, frame⟩ := held place f first
    obtain ⟨isUser', lower', _, frame'⟩ := held place' f second
    apply Prod.ext
    · rw [isUser, isUser']
    · omega

theorem exclusive_of_run (run : ReachableUnder SbrkSound image s) :
    s.mm.holdings.Exclusive := by
  refine Library.Reach.invariant_over
    (fun state => state.mm.holdings.Exclusive) (boot_exclusive image)
    (fun _ plain => (⟨orderly_of_reachable plain, mapped_of_reachable plain⟩ :
      Orderly _ ∧ Mapped _)) ?_ run
  intro before event after base exclusive sound taken
  exact exclusive_effect base.2 exclusive sound
    (handle_space base.1 (handle_of_step taken)) (fault_of_step taken)

/-- In a run in which no call of `sys_sbrk` frees the frame of a page that stays
mapped, frames are exclusive. -/
theorem frames_exclusive {image : BootImage}
    (run : ReachableUnder SbrkSound image s) : FramesExclusive s := by
  have exclusive := exclusive_of_run run
  constructor
  · intro t _ page high present
    exact exclusive.valid _ _ (Memory.held_eq_some s.mm _ high present)
  · intro t u _ _ page page' high high' present present' same
    have first := Memory.held_eq_some s.mm _ high present
    have second := Memory.held_eq_some s.mm _ high' present'
    rw [← same] at second
    exact Prod.mk.inj (exclusive.single _ _ _ first second)

theorem frames_exclusive_forked :
    let events : List Event := [.syscall (.sbrk 5000), .syscall .fork, .syscall .exit, .resume,
      .syscall (.sbrk 4096)]
    ∃ s, Library.runEvents (Library.guarded step SbrkSound) (boot sampleImage) events = some s ∧
      FramesExclusive s := by
  intro events
  obtain ⟨s, finished⟩ := Option.isSome_iff_exists.mp
    (show (Library.runEvents (Library.guarded step SbrkSound) (boot sampleImage)
      events).isSome = true by decide +kernel)
  exact ⟨s, finished, frames_exclusive (Library.Reach.of_guarded finished)⟩

/-- A break that moves two pages up and down again leaves a page mapped whose
frame is free. -/
theorem shrunk_heap_dangles : ∃ s, Reachable sampleImage s ∧
    ¬ FramesExclusive s := by
  refine ⟨Library.lastState step (boot sampleImage)
      [.syscall (.sbrk 8192), .syscall (.sbrk (-8192))],
    Library.Reach.lastState fun _ _ _ => trivial, fun exclusive => ?_⟩
  have page : let s := (Library.lastState step (boot sampleImage)
        [.syscall (.sbrk 8192), .syscall (.sbrk (-8192))])
      s.live 1 = true ∧
        (s.mm.pagusrTable (s.task 1).dirPagesBaseAddr 285).present = true ∧
        s.mm.physMem (s.mm.getFrame (s.task 1).dirPagesBaseAddr 285) =
          .freeFrame := by
    decide +kernel
  obtain ⟨live, present, free⟩ := page
  have used := exclusive.used 1 live 285 (by decide) present
  rw [free] at used
  cases used

end Kernel

end Zeos
