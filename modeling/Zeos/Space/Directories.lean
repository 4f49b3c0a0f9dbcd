import Zeos.Space.Calls

/-!
# The use counts of directories

`dirCounter` counts the live processes of each directory as long as no fork
runs out of frames: the error path of `sys_fork` gives back the frames and the
PCB, but not the use of the directory that `allocate_DIR` has counted.
-/

namespace Zeos

namespace Kernel

variable {s s' : Kernel} {event : Event} {t child : TaskId} {i dir : DirId}

/-- A live process whose directory is `&dir_pages[i]`. -/
def Uses (s : Kernel) (i : DirId) (t : TaskId) : Prop :=
  s.live t = true ∧ (s.task t).dirPagesBaseAddr = i

instance (s : Kernel) (i : DirId) : DecidablePred (s.Uses i) := by
  intro t
  unfold Uses
  infer_instance

/-- The number of live processes of a directory. -/
def users (s : Kernel) (i : DirId) : Nat :=
  (Finset.univ.filter (s.Uses i)).card

/-! ## Counting -/

theorem users_eq_zero_iff : s.users i = 0 ↔ ∀ t, ¬ s.Uses i t := by
  unfold users
  rw [Finset.card_eq_zero, Finset.filter_eq_empty_iff]
  simp

/-- The directory of the running process has a user. -/
theorem users_parentDir (orderly : s.Orderly) :
    s.users s.currentTask.dirPagesBaseAddr ≠ 0 := fun nobody =>
  users_eq_zero_iff.mp nobody s.current ⟨orderly.settled.currentLive, rfl⟩

/-- One process changes. -/
theorem users_change (s s' : Kernel) (i : DirId) (t : TaskId)
    (others : ∀ u, u ≠ t → (s'.Uses i u ↔ s.Uses i u)) :
    s'.users i + (if s.Uses i t then 1 else 0) =
      s.users i + (if s'.Uses i t then 1 else 0) := by
  have rest : ∑ u ∈ Finset.univ.erase t, (if s'.Uses i u then 1 else 0) =
      ∑ u ∈ Finset.univ.erase t, (if s.Uses i u then 1 else 0) := by
    apply Finset.sum_congr rfl
    intro u inRest
    exact if_congr (others u (Finset.ne_of_mem_erase inRest)) rfl rfl
  have before := Finset.add_sum_erase Finset.univ
    (fun u => if s.Uses i u then 1 else 0) (Finset.mem_univ t)
  have after := Finset.add_sum_erase Finset.univ
    (fun u => if s'.Uses i u then 1 else 0) (Finset.mem_univ t)
  unfold users
  rw [Finset.card_filter, Finset.card_filter, ← before, ← after, rest]
  omega

theorem users_same (dirs : ∀ t,
      (s'.task t).dirPagesBaseAddr = (s.task t).dirPagesBaseAddr)
    (live : s'.live = s.live) (i : DirId) : s'.users i = s.users i := by
  have same : ∀ t, s'.Uses i t ↔ s.Uses i t := by
    intro t
    unfold Uses
    rw [live, dirs t]
  unfold users
  simp only [same]

/-- A live process exits. -/
theorem users_exited (region : ∀ t, SameRegion (s.task t) (s'.task t))
    (live : s'.live = Function.update s.live t false)
    (alive : s.live t = true) (i : DirId) :
    s'.users i + (if (s.task t).dirPagesBaseAddr = i then 1 else 0) =
      s.users i := by
  have gone : ¬ s'.Uses i t := by
    unfold Uses
    simp [live]
  have own : s.Uses i t ↔ (s.task t).dirPagesBaseAddr = i :=
    and_iff_right alive
  have change := users_change s s' i t fun u different => by
    unfold Uses
    rw [live, Function.update_of_ne different, (region u).dirPagesBaseAddr]
  simpa only [own, if_neg gone, Nat.add_zero] using change

/-- A free PCB becomes a process with directory `dir`. -/
theorem users_born (dead : s.live child = false)
    (others : ∀ t, t ≠ child → SameRegion (s.task t) (s'.task t))
    (own : (s'.task child).dirPagesBaseAddr = dir)
    (live : s'.live = Function.update s.live child true) (i : DirId) :
    s'.users i = s.users i + if dir = i then 1 else 0 := by
  have before : ¬ s.Uses i child := by
    unfold Uses
    simp [dead]
  have after : s'.Uses i child ↔ dir = i := by
    unfold Uses
    simp [live, own]
  have change := users_change s s' i child
    fun u different => by
      unfold Uses
      rw [live, Function.update_of_ne different,
        (others u different).dirPagesBaseAddr]
  simpa only [after, if_neg before, Nat.add_zero] using change

/-- A PCB that is not live may change without effect on the counts. -/
theorem users_spare (dead : s.live child = false)
    (others : ∀ t, t ≠ child → SameRegion (s.task t) (s'.task t))
    (live : s'.live = s.live) (i : DirId) : s'.users i = s.users i := by
  have before : ¬ s.Uses i child := by
    unfold Uses
    simp [dead]
  have after : ¬ s'.Uses i child := by
    unfold Uses
    simp [live, dead]
  have change := users_change s s' i child
    fun u different => by
      unfold Uses
      rw [live, (others u different).dirPagesBaseAddr]
  simpa only [if_neg before, if_neg after, Nat.add_zero] using change

/-- Ten directories are enough for nine processes. -/
theorem exists_unused (dead : s.live child = false) : ∃ i, s.users i = 0 := by
  by_contra all
  have owner : ∀ i, ∃ t, s.Uses i t := by
    intro i
    by_contra nobody
    apply all
    exact ⟨i, users_eq_zero_iff.mpr fun t uses => nobody ⟨t, uses⟩⟩
  choose owns ownsUses using owner
  have injective : Function.Injective owns := by
    intro i j same
    rw [← (ownsUses i).2, ← (ownsUses j).2, same]
  obtain ⟨i, isChild⟩ := (Finite.injective_iff_surjective.mp injective) child
  have alive := (ownsUses i).1
  rw [isChild, dead] at alive
  cases alive

/-! ## Exact counts -/

/-- The use counts are exact, and `allocate_DIR` finds a directory for the child
of every fork. -/
structure DirectoriesCounted (s : Kernel) : Prop where
  counted : ∀ i, s.mm.dirCounter i = s.users i
  allocated : ∀ child ∈ s.queue .freequeue,
    (((s.listDel child).copyUnion child).allocateDIR child).1 = 1

/-- A fork that finds a free PCB finds all the frames it needs. -/
def ForksComplete (s : Kernel) : Event → Prop
  | .syscall .fork => s.queue .freequeue ≠ [] → s.forkPages ≤ s.mm.freeFrames
  | _ => True

instance (s : Kernel) (event : Event) : Decidable (ForksComplete s event) := by
  unfold ForksComplete
  split <;> infer_instance

theorem counted_effect (orderly : s.Orderly) (mapped : s.Mapped)
    (counted : ∀ i, s.mm.dirCounter i = s.users i)
    (complete : ForksComplete s event) (effect : SpaceEffect s event s')
    (noFault : s'.mm.fault = false) (i : DirId) :
    s'.mm.dirCounter i = s'.users i := by
  cases effect with
  | same space =>
      rw [space.tables.dirCounter,
        users_same (fun t => (space.region t).dirPagesBaseAddr) space.live]
      exact counted i
  | exited tables region live after =>
      have change := users_exited region live orderly.settled.currentLive i
      rw [after] at noFault ⊢
      have edit := (Memory.releaseDir_spec _ _ noFault).1
      rw [edit.dirCounter]
      dsimp only
      rw [tables.dirCounter]
      change Function.update s.mm.dirCounter (s.task s.current).dirPagesBaseAddr
        (s.mm.dirCounter (s.task s.current).dirPagesBaseAddr - 1) i = _
      by_cases own : (s.task s.current).dirPagesBaseAddr = i
      · subst own
        rw [Function.update_self, counted]
        rw [if_pos rfl] at change
        omega
      · rw [Function.update_of_ne (Ne.symm own), counted]
        rw [if_neg own] at change
        omega
  | forkFailed taken failed _ after =>
      have enough := complete (List.ne_nil_of_mem taken.member)
      rw [after] at noFault
      obtain ⟨k, _, short, few, _⟩ := Memory.reserveData_failed failed noFault
        (Tidy.withUses mapped.tidy _)
      change s.mm.freeFrames = k at few
      omega
  | @forked _ dir _ _ _ taken reserved live after =>
      obtain ⟨member, _, directory, others, own, _⟩ := taken
      rw [after] at noFault ⊢
      obtain ⟨reservedFault, _, uses, _⟩ := forkSpace_spec s _ _ noFault
      have maps := Memory.reserveData_done reserved reservedFault
      rw [uses, (maps.edit (Tidy.withUses mapped.tidy _)).dirCounter]
      dsimp only
      rw [users_born (orderly.dead member) others own.dirPagesBaseAddr live i]
      cases directory with
      | found unused =>
          by_cases isDir : dir = i
          · subst isDir
            have nobody := counted dir
            rw [Function.update_self, if_pos rfl]
            omega
          · rw [Function.update_of_ne (Ne.symm isDir), if_neg isDir, counted]
            omega
      | inherited all =>
          obtain ⟨j, unused⟩ := exists_unused (orderly.dead member)
          have used := all j
          rw [counted j, unused] at used
          exact absurd rfl used
  | cloned member _ others own live after =>
      rw [after, users_born (orderly.dead member) others own.dirPagesBaseAddr live i]
      dsimp only
      by_cases isDir : s.currentTask.dirPagesBaseAddr = i
      · rw [isDir, Function.update_self, if_pos rfl, counted]
        omega
      · rw [Function.update_of_ne (Ne.symm isDir), if_neg isDir, counted]
        omega
  | moved others own live after =>
      have parent : 0 ≤ s.currentTask.heapPages := mapped.nonneg s.current
      rw [after] at noFault ⊢
      have call := sysSbrk_effect _ _ _ parent noFault
      obtain ⟨edit, _⟩ := call.edit parent mapped.tidy noFault
      rw [edit.dirCounter, users_same (moved_dirs others own) live]
      exact counted i

theorem boot_counted (image : BootImage) (i : DirId) :
    (boot image).mm.dirCounter i = (boot image).users i := by
  obtain ⟨regions, memory⟩ := boot_space image
  have live := boot_view_live image
  have uses : ∀ t : TaskId, (boot image).Uses i t ↔
      bootView.live t = true ∧ (if t = 1 then 1 else 0) = i := by
    intro t
    unfold Uses
    rw [live, (regions t).dirPagesBaseAddr]
  have counts : ∀ i : DirId, bootUses i = ((Finset.univ.filter fun t : TaskId =>
      bootView.live t = true ∧ (if t = 1 then 1 else 0) = i).card : Int) := by
    decide
  unfold users
  simp only [uses]
  rw [memory]
  exact counts i

theorem directoriesCounted_of (orderly : s.Orderly)
    (counted : ∀ i, s.mm.dirCounter i = s.users i) : DirectoriesCounted s where
  counted := counted
  allocated child member := by
    have dead := orderly.dead member
    obtain ⟨i, unused⟩ := exists_unused dead
    unfold allocateDIR
    split
    · rfl
    · next absent =>
        have none := List.find?_eq_none.mp absent i (List.mem_finRange i)
        have zero : ((s.listDel child).copyUnion child).mm.dirCounter i = 0 := by
          change s.mm.dirCounter i = 0
          rw [counted, unused]
          rfl
        exact absurd zero (by simpa using none)

theorem counted_of_complete {image : BootImage}
    (run : ReachableUnder ForksComplete image s) (i : DirId) :
    s.mm.dirCounter i = s.users i := by
  refine Library.Reach.invariant_over
    (fun state => ∀ i, state.mm.dirCounter i = state.users i)
    (boot_counted image)
    (fun _ plain => (⟨orderly_of_reachable plain, mapped_of_reachable plain⟩ :
      Orderly _ ∧ Mapped _)) ?_ run i
  intro before event after base counted complete taken
  exact counted_effect base.1 base.2 counted complete
    (handle_space base.1 (handle_of_step taken)) (fault_of_step taken)

/-- In a run in which every fork that finds a free PCB finds its frames, the use
counts are exact and no child lacks a directory. -/
theorem directories_counted {image : BootImage}
    (run : ReachableUnder ForksComplete image s) : DirectoriesCounted s := by
  have plain : Reachable image s := run.mono fun _ _ _ => trivial
  exact directoriesCounted_of (orderly_of_reachable plain)
    (counted_of_complete run)

theorem directories_counted_forked :
    let events : List Event := [.syscall .fork, .syscall (.clone 0x100000 0x110000),
      .syscall .exit, .resume]
    ∃ s, Library.runEvents (Library.guarded step ForksComplete) (boot sampleImage) events =
        some s ∧ DirectoriesCounted s := by
  intro events
  obtain ⟨s, finished⟩ := Option.isSome_iff_exists.mp
    (show (Library.runEvents (Library.guarded step ForksComplete) (boot sampleImage)
      events).isSome = true by decide +kernel)
  exact ⟨s, finished, directories_counted (Library.Reach.of_guarded finished)⟩

/-- A fork that finds a PCB and not enough frames returns `-ENOMEM`. -/
theorem fork_exhausted (orderly : s.Orderly) (mode : s.mode = .user)
    (busy : s.current ≠ s.idleTask) (free : s.queue .freequeue ≠ [])
    (few : s.mm.freeFrames < s.forkPages) (noFault : s.mm.fault = false)
    (inTable : pagLogInitData + s.forkPages ≤ totalPages) :
    ∃ s' child dir uses, s.step (.syscall .fork) = some s' ∧
      s'.eax s.current = -enomem ∧ s.ForkTaken child dir uses s' ∧
      s'.live = s.live ∧
      Memory.reserveData dir s.forkPages 0 { s.mm with dirCounter := uses } =
        (false, s'.mm) := by
  obtain ⟨child, dir, uses, mm, forked, outcome⟩ := fork_taken orderly free
  have loopNoFault := Memory.reserveData_noFault dir s.forkPages 0
    { s.mm with dirCounter := uses } inTable noFault
  rcases outcome with ⟨failed, result, live, after⟩ | ⟨reserved, _, _⟩
  · have handled : s.handle (.syscall .fork) = some (s.systemCall .fork) :=
      if_pos ⟨mode, busy⟩
    have ends : (s.systemCall .fork).mm.fault = false := by
      rw [after]
      rw [failed] at loopNoFault
      exact loopNoFault
    have taken : s.step (.syscall .fork) = some (s.systemCall .fork) :=
      step_of_handle rfl handled ends
    refine ⟨_, child, dir, uses, taken, result, forked, live, ?_⟩
    rw [after]
    exact failed
  · have enough := (Memory.reserveData_iff dir s.forkPages _ loopNoFault).mp
      (by rw [reserved])
    exact absurd enough (Nat.not_le.mpr few)

/-- Such a fork leaves the count of its directory too high. -/
theorem ForkTaken.uncounted {child : TaskId} {dir : DirId} {uses : DirId → Int}
    {s' : Kernel} (orderly : s.Orderly) (mapped : s.Mapped)
    (counted : DirectoriesCounted s) (forked : s.ForkTaken child dir uses s')
    (live : s'.live = s.live) (noFault : s'.mm.fault = false)
    (failed : Memory.reserveData dir s.forkPages 0
      { s.mm with dirCounter := uses } = (false, s'.mm)) :
    ¬ DirectoriesCounted s' := by
  intro countedAfter
  have dead := orderly.dead forked.member
  have sameUsers := users_spare dead forked.others live dir
  obtain ⟨_, _, _, _, _, edit, _⟩ := Memory.reserveData_failed failed noFault
    (Tidy.withUses mapped.tidy _)
  have exact_ := countedAfter.counted dir
  rw [edit.dirCounter, sameUsers, ← counted.counted dir] at exact_
  dsimp only at exact_
  cases forked.directory with
  | found unused =>
      rw [Function.update_self, unused] at exact_
      cases exact_
  | inherited all =>
      obtain ⟨j, unused⟩ := exists_unused dead
      apply all j
      rw [counted.counted, unused]
      rfl

/-- The first process moves its break by 169 pages, so that fewer frames are left
than its child needs, and forks. -/
theorem crowded_fork : ∃ s s' child dir uses, Reachable sampleImage s ∧
    s.mm.dirCounter 2 = 0 ∧ s.step (.syscall .fork) = some s' ∧
      s'.eax s.current = -enomem ∧ s.ForkTaken child dir uses s' ∧
      s'.live = s.live ∧
      Memory.reserveData dir s.forkPages 0 { s.mm with dirCounter := uses } =
        (false, s'.mm) := by
  have run : Reachable sampleImage (Library.lastState step (boot sampleImage)
      [.syscall (.sbrk 692224)]) := Library.Reach.lastState fun _ _ _ => trivial
  have crowded :
      let s := Library.lastState step (boot sampleImage) [.syscall (.sbrk 692224)]
      s.mode = .user ∧ s.current ≠ s.idleTask ∧ s.queue .freequeue ≠ [] ∧
        s.mm.freeFrames < s.forkPages ∧ s.mm.fault = false ∧
        pagLogInitData + s.forkPages ≤ totalPages ∧ s.mm.dirCounter 2 = 0 := by
    decide +kernel
  generalize Library.lastState step (boot sampleImage)
    [.syscall (.sbrk 692224)] = s at crowded run
  obtain ⟨mode, busy, free, few, noFault, inTable, unused⟩ := crowded
  obtain ⟨s', child, dir, uses, forked⟩ := fork_exhausted
    (orderly_of_reachable run) mode busy free few noFault inTable
  exact ⟨s, s', child, dir, uses, run, unused, forked⟩

theorem failed_fork_counted :
    ¬ ∀ s, Reachable sampleImage s → DirectoriesCounted s := by
  intro all
  obtain ⟨s, s', child, dir, uses, run, _, taken, _, forked, live, failed⟩ :=
    crowded_fork
  exact forked.uncounted (orderly_of_reachable run) (mapped_of_reachable run)
    (all s run) live (fault_of_step taken) failed (all s' (run.step trivial taken))

end Kernel

end Zeos
