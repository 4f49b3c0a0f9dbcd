import Zeos.Space.Sharing

/-!
# The error path of `sys_sbrk`

A call that returns `-ENOMEM` before its loop leaves everything as it was.  One
that runs out of frames in the loop gives every frame back, but it clears the
entries one page too far up, so that the first page stays mapped, and it keeps
the page of a heap that it has created.
-/

namespace Zeos

/-- The call leaves the heap, the frames in use and the entries of the caller's
table as they were. -/
structure Unwound (t : TaskStruct) (mm : Memory) (t' : TaskStruct)
    (mm' : Memory) : Prop where
  heap : SameHeap t' t
  frames : mm'.physMem = mm.physMem
  entries : ∀ page, page < totalPages →
    mm'.pagusrTable t.dirPagesBaseAddr page =
      mm.pagusrTable t.dirPagesBaseAddr page

/-- The pages behind the heap are as the error path leaves them: the first one
maps the next free frame, and those for the other free frames are not
mapped. -/
structure AlreadyLeft (t : TaskStruct) (mm : Memory) : Prop where
  first : mm.allocFrame.map (fun found => Memory.pageEntry found.1) =
    some (mm.pagusrTable t.dirPagesBaseAddr (heapEnd t))
  others : ∀ page, heapEnd t < page → page ≤ heapEnd t + mm.freeFrames →
    mm.pagusrTable t.dirPagesBaseAddr page = {}

/-- The call is refused before it writes anything, asks for the break, or runs
out of frames when the heap exists and either no frame is left or the error
path changes nothing. -/
def UnwindsAll (increment : Int) (t : TaskStruct) (mm : Memory) : Prop :=
  (t.heap = 0 ∧ (increment < 0 ∨ mm.freeFrames = 0)) ∨
    (t.heap ≠ 0 ∧ (increment = 0 ∨
      (mm.freeFrames < newPages increment t ∧
        (mm.freeFrames = 0 ∨ AlreadyLeft t mm))))

variable {t t' t₁ : TaskStruct} {mm mm' mm₁ mm₂ mm₃ : Memory} {k : Nat}
  {increment result : Int}

theorem physMem_ext (same : ∀ f, mm.holdings.used f ↔ mm'.holdings.used f) :
    mm.physMem = mm'.physMem := by
  funext f
  have iffUsed : mm.physMem f = .usedFrame ↔ mm'.physMem f = .usedFrame := same f
  cases before : mm.physMem f <;> cases after : mm'.physMem f <;>
    simp_all

theorem freeFrames_congr (same : mm.physMem = mm'.physMem) : mm.freeFrames = mm'.freeFrames := by
  unfold Memory.freeFrames
  rw [same]

/-! ## A call that runs out of frames in its loop -/

/-- The frames that the loop took are free again. -/
theorem short_frames (nonneg : 0 ≤ t.heapPages) (tidy : mm.Tidy)
    (maps : Memory.Maps t.dirPagesBaseAddr (heapEnd t) k mm mm₂)
    (noFault : (releasePages k { t with
      heapSize := grownSize increment t
      heapPages := t.heapPages + k } mm₂).2.fault = false) (f : Nat) :
    (releasePages k { t with
        heapSize := grownSize increment t
        heapPages := t.heapPages + k } mm₂).2.holdings.used f ↔
      mm.holdings.used f := by
  have ending := heapEnd_eq nonneg
  have high : pagLogInitData ≤ heapEnd t :=
    le_trans (by decide) (le_heapEnd nonneg)
  have given := (releasePages_holdings k _ mm₂ ((maps.edit tidy).tidy tidy)
    (by dsimp only; omega) noFault).2 f
  obtain ⟨_, _, kept, grown⟩ := maps.held high
  dsimp only at given
  rw [given]
  constructor
  · rintro ⟨used, notGiven⟩
    rcases grown f used with before | ⟨p, range, holds⟩
    · exact before
    · exact absurd holds (notGiven p (by omega) (by omega))
  · intro used
    refine ⟨kept f used, fun p lower upper holds => ?_⟩
    exact maps.fresh high p f (by omega) holds used

/-- Of the pages that the loop mapped only the first one keeps its entry. -/
theorem short_entries (nonneg : 0 ≤ t.heapPages) (_ : k ≠ 0)
    (maps : Memory.Maps t.dirPagesBaseAddr (heapEnd t) k mm mm₂)
    (noFault : (releasePages k { t with
      heapSize := grownSize increment t
      heapPages := t.heapPages + k } mm₂).2.fault = false) (page : Nat) :
    (releasePages k { t with
        heapSize := grownSize increment t
        heapPages := t.heapPages + k } mm₂).2.pagusrTable t.dirPagesBaseAddr page =
      if page = heapEnd t then mm₂.pagusrTable t.dirPagesBaseAddr page
      else if heapEnd t < page ∧ page ≤ heapEnd t + k then {}
      else mm.pagusrTable t.dirPagesBaseAddr page := by
  have ending := heapEnd_eq nonneg
  rw [releasePages_table k _ mm₂ noFault]
  dsimp only
  simp only [true_and]
  split_ifs with cleared isFirst behind isFirst behind
  · omega
  · rfl
  · omega
  · rfl
  · omega
  · exact maps.table _ page fun _ range => by omega

theorem short_unwound_iff (nonneg : 0 ≤ t.heapPages)
    (sized : int32 t.heapSize = t.heapSize) (tidy : mm.Tidy)
    (positive : 0 < increment)
    (maps : Memory.Maps t.dirPagesBaseAddr (heapEnd t) k mm mm₂)
    (empty : mm₂.freeFrames = 0)
    (released : (releasePages k { t with
      heapSize := grownSize increment t
      heapPages := t.heapPages + k } mm₂).2 = mm₃)
    (noFault : mm₃.fault = false) :
    Unwound t mm
        { t with heapSize := int32 (grownSize increment t - increment) } mm₃ ↔
      mm.freeFrames = 0 ∨ AlreadyLeft t mm := by
  have counted := maps.freeFrames
  subst released
  have heap : SameHeap
      { t with heapSize := int32 (grownSize increment t - increment) } t :=
    ⟨rfl, grownSize_back positive sized, rfl⟩
  by_cases none : k = 0
  · subst none
    cases maps
    exact iff_of_true ⟨heap, rfl, fun _ _ => rfl⟩ (Or.inl (by omega))
  · have frames := physMem_ext (short_frames nonneg tidy maps noFault)
    have entries := short_entries nonneg none maps noFault
    have bounds := (releasePages_spec _ _ _ noFault).2.2.1 none
    have ending := heapEnd_eq nonneg
    dsimp only at bounds
    obtain ⟨count, rfl⟩ : ∃ count, k = count + 1 := ⟨k - 1, by omega⟩
    have firstEntry := maps.firstEntry
    constructor
    · intro unwound
      refine Or.inr ⟨?_, fun page above below => ?_⟩
      · rw [firstEntry]
        have same := unwound.entries (heapEnd t) (by push_cast at bounds; omega)
        rw [entries, if_pos rfl] at same
        rw [same]
      · have same := unwound.entries page (by push_cast at bounds; omega)
        rw [entries, if_neg (by omega), if_pos (by omega)] at same
        exact same.symm
    · rintro (exhausted | left)
      · omega
      · refine ⟨heap, frames, fun page _ => ?_⟩
        rw [entries]
        split_ifs with isFirst behind
        · rw [isFirst]
          exact Option.some.inj (firstEntry.symm.trans left.first)
        · exact (left.others page behind.1 (by omega)).symm
        · rfl

/-- A call that runs out of frames in the loop leaves the heap and the frames in use as they
were, and the entries as the same call would leave them again. -/
theorem sysSbrk_leaves (increment : Int32) (nonneg : 0 ≤ t.heapPages)
    (sized : int32 t.heapSize = t.heapSize) (tidy : mm.Tidy) (made : t.heap ≠ 0)
    (growing : 0 ≤ increment.toInt) (some_ : mm.freeFrames ≠ 0)
    (many : mm.freeFrames < newPages increment.toInt t)
    (noFault : (sysSbrk increment t mm).2.2.fault = false) :
    (sysSbrk increment t mm).2.1 = t ∧ (sysSbrk increment t mm).2.2.physMem = mm.physMem ∧
      AlreadyLeft t (sysSbrk increment t mm).2.2 := by
  have effect := sysSbrk_effect increment t mm nonneg noFault
  have unopened : openHeap t mm = (t, mm) := if_neg made
  generalize sysSbrk increment t mm = call at effect noFault ⊢
  obtain ⟨result, t', mm'⟩ := call
  dsimp only at effect noFault ⊢
  cases effect with
  | refused missing _ => exact absurd missing made
  | grown _ opened maps =>
      rw [unopened] at opened
      cases opened
      have counted := maps.freeFrames
      omega
  | @short _ _ mm₂ _ k opened maps empty short released =>
      rw [unopened] at opened
      cases opened
      have counted := maps.freeFrames
      subst released
      have none : k ≠ 0 := by omega
      have frames := physMem_ext (short_frames nonneg tidy maps noFault)
      have entries := short_entries nonneg none maps noFault
      have back := grownSize_back (pos_of_newPages (Nat.ne_zero_of_lt short)) sized
      refine ⟨by rw [back], frames, ?_, fun page above below => ?_⟩
      · rw [entries, if_pos rfl]
        obtain ⟨count, rfl⟩ : ∃ count, k = count + 1 := ⟨k - 1, by omega⟩
        rw [← maps.firstEntry]
        unfold Memory.allocFrame
        rw [frames]
        cases Memory.frameScan.find? (fun i => mm.physMem i = .freeFrame) <;> rfl
      · rw [freeFrames_congr frames] at below
        rw [entries, if_neg (by omega), if_pos (by omega)]
  | shrunk shrinking _ _ => omega

/-! ## Every call that returns `-ENOMEM` -/

/-- The break of a heap that was not shrunk below its start is no error. -/
theorem shrunk_result_ne (increment : Int) (t : TaskStruct) :
    int32 (heapStart + shrunkSize increment t) ≠ -enomem := by
  have range := shrunkSize_range increment t
  intro same
  have congruent := Int.bmod_emod (x := heapStart + shrunkSize increment t)
    (m := 2 ^ 32)
  unfold int32 at same
  rw [same] at congruent
  simp only [heapStart, heapInitPage, pagLogInitData, pagLogInitCode, numPagCode,
    numPagData, pageSize, enomem] at congruent
  omega

theorem sysSbrk_unwound_iff (increment : Int32) (nonneg : 0 ≤ t.heapPages)
    (sized : int32 t.heapSize = t.heapSize) (tidy : mm.Tidy)
    (noFault : (sysSbrk increment t mm).2.2.fault = false)
    (failed : (sysSbrk increment t mm).1 = -enomem) :
    Unwound t mm (sysSbrk increment t mm).2.1 (sysSbrk increment t mm).2.2 ↔
      UnwindsAll increment.toInt t mm := by
  by_cases refused : t.heap = 0 ∧ (increment.toInt < 0 ∨ mm.freeFrames = 0)
  · rw [sysSbrk_refused increment refused.1 refused.2]
    exact iff_of_true ⟨.refl t, rfl, fun _ _ => rfl⟩ (Or.inl refused)
  have effect := sysSbrk_effect increment t mm nonneg noFault
  generalize sysSbrk increment t mm = call at effect noFault failed
  obtain ⟨result, t', mm'⟩ := call
  dsimp only at effect noFault failed ⊢
  have lower : -2 ^ 31 ≤ increment.toInt := Int32.le_toInt increment
  have upper : increment.toInt < 2 ^ 31 := Int32.toInt_lt increment
  generalize increment.toInt = increment at *
  -- a call that creates the heap does not take it back
  have created : ∀ {t₁ mm₁ size pages}, openHeap t mm = (t₁, mm₁) → t.heap = 0 →
      mm.freeFrames = 0 ∨
        (¬ Unwound t mm { t₁ with heapSize := size, heapPages := pages } mm' ∧
          ¬ UnwindsAll increment t mm) := by
    intro t₁ mm₁ size pages opened missing
    rcases openHeap_cases t mm with ⟨_, heap | none⟩ | ⟨_, mm₂, first, _⟩
    · exact absurd missing heap
    · exact Or.inl none
    · rw [first] at opened
      cases opened
      have start : (heapStart : Int) ≠ 0 := by decide
      refine Or.inr ⟨fun unwound => start ?_, ?_⟩
      · exact unwound.heap.heap.trans missing
      · rintro (gaveUp | ⟨heap, _⟩)
        · exact refused gaveUp
        · exact heap missing
  cases effect with
  | refused missing cause => exact absurd ⟨missing, cause⟩ refused
  | @grown t₁ mm₁ _ growing opened maps =>
      by_cases missing : t.heap = 0
      · obtain none | ⟨notUnwound, notAll⟩ := created opened missing
        · exact absurd ⟨missing, Or.inr none⟩ refused
        · exact iff_of_false notUnwound notAll
      · have unopened : openHeap t mm = (t, mm) := if_neg missing
        rw [unopened] at opened
        cases opened
        by_cases zero : increment = 0
        · subst zero
          have noPages : newPages 0 t = 0 := by simp [newPages]
          have size : grownSize 0 t = t.heapSize := if_pos rfl
          rw [noPages] at maps ⊢
          cases maps
          refine iff_of_true ⟨⟨rfl, size, by simp⟩, rfl, fun _ _ => rfl⟩
            (Or.inr ⟨missing, Or.inl rfl⟩)
        · have counted := maps.freeFrames
          apply iff_of_false
          · intro unwound
            have size : grownSize increment t = t.heapSize := unwound.heap.heapSize
            unfold grownSize at size
            rw [if_neg zero] at size
            exact zero (int32_add_eq_self (by omega) (by omega) size)
          · rintro (gaveUp | ⟨_, isZero | ⟨few, _⟩⟩)
            · exact refused gaveUp
            · exact zero isZero
            · omega
  | @short t₁ mm₁ mm₂ _ k opened maps empty short released =>
      by_cases missing : t.heap = 0
      · obtain none | ⟨notUnwound, notAll⟩ := created opened missing
        · exact absurd ⟨missing, Or.inr none⟩ refused
        · exact iff_of_false notUnwound notAll
      · have unopened : openHeap t mm = (t, mm) := if_neg missing
        rw [unopened] at opened
        cases opened
        have positive := pos_of_newPages (Nat.ne_zero_of_lt short)
        have counted := maps.freeFrames
        rw [short_unwound_iff nonneg sized tidy positive maps empty released
          noFault]
        constructor
        · intro left
          exact Or.inr ⟨missing, Or.inr ⟨by omega, left⟩⟩
        · rintro (gaveUp | ⟨_, isZero | ⟨_, left⟩⟩)
          · exact absurd gaveUp refused
          · omega
          · exact left
  | shrunk _ _ _ => exact absurd failed (shrunk_result_ne increment t)

/-- A call that asks for more pages than there are frames fails. -/
theorem sysSbrk_exhausted (increment : Int32) (growing : 0 ≤ increment.toInt)
    (nonneg : 0 ≤ t.heapPages)
    (many : (openHeap t mm).2.freeFrames <
      newPages increment.toInt (openHeap t mm).1)
    (noFault : (sysSbrk increment t mm).2.2.fault = false) :
    (sysSbrk increment t mm).1 = -enomem := by
  have effect := sysSbrk_effect increment t mm nonneg noFault
  generalize sysSbrk increment t mm = call at effect
  obtain ⟨result, t', mm'⟩ := call
  dsimp only at effect ⊢
  cases effect with
  | refused _ _ => rfl
  | grown _ opened maps =>
      have counted := maps.freeFrames
      rw [opened] at many
      dsimp only at many
      omega
  | short _ _ _ _ _ => rfl
  | shrunk shrinking _ _ => omega

namespace Kernel

variable {s s' : Kernel} {image : BootImage} {increment : Int32}

/-- What a call of `sys_sbrk` writes. -/
theorem sbrk_written (taken : s.step (.syscall (.sbrk increment)) = some s') :
    s'.eax s.current = (Zeos.sysSbrk increment s.currentTask s.mm).1 ∧
      s'.task s.current = (Zeos.sysSbrk increment s.currentTask s.mm).2.1 ∧
      s'.mm = (Zeos.sysSbrk increment s.currentTask s.mm).2.2 := by
  rw [← syscall_of_handle (handle_of_step taken)]
  refine ⟨Function.update_self _ _ _, ?_, rfl⟩
  exact Function.update_self _ _ _

theorem sbrk_taken (mode : s.mode = .user) (busy : s.current ≠ s.idleTask)
    (noFault : (Zeos.sysSbrk increment s.currentTask s.mm).2.2.fault = false) :
    s.step (.syscall (.sbrk increment)) =
      some (s.systemCall (.sbrk increment)) := by
  have handled : s.handle (.syscall (.sbrk increment)) =
      some (s.systemCall (.sbrk increment)) := if_pos ⟨mode, busy⟩
  have memory : (s.systemCall (.sbrk increment)).mm =
      (Zeos.sysSbrk increment s.currentTask s.mm).2.2 := rfl
  exact step_of_handle rfl handled (memory.symm ▸ noFault)

/-- In every reachable state, a call of `sys_sbrk` that returns `-ENOMEM` undoes
what it did exactly if it did nothing that its error path does not undo. -/
theorem failed_sbrk_unwound (run : Reachable image s)
    (taken : s.step (.syscall (.sbrk increment)) = some s')
    (failed : s'.eax s.current = -enomem) :
    Unwound s.currentTask s.mm (s'.task s.current) s'.mm ↔
      UnwindsAll increment.toInt s.currentTask s.mm := by
  have housed := housed_of_reachable run
  have noFault := fault_of_step taken
  obtain ⟨result, task, memory⟩ := sbrk_written taken
  rw [memory] at noFault
  rw [result] at failed
  rw [task, memory]
  exact sysSbrk_unwound_iff increment (housed.mapped.nonneg s.current)
    (housed.sized s.current) housed.mapped.tidy noFault failed

/-- The first process makes a heap, and asks twice for more pages than there are frames: the
second call takes all frames, gives them back and leaves everything as it was. -/
theorem failed_sbrk_unwound_again : ∃ s s₁ s₂,
    (boot sampleImage).step (.syscall (.sbrk 1)) = some s ∧
      s.step (.syscall (.sbrk 0x200000)) = some s₁ ∧
      s₁.step (.syscall (.sbrk 0x200000)) = some s₂ ∧ s₂.eax s₁.current = -enomem ∧
        s₁.currentTask.heap ≠ 0 ∧ s₁.mm.freeFrames ≠ 0 ∧
        Unwound s₁.currentTask s₁.mm (s₂.task s₁.current) s₂.mm := by
  have growing : 0 ≤ (0x200000 : Int32).toInt := by decide
  obtain ⟨s, finished, seen⟩ := (Option.any_eq_true _ _).mp
    (show ((boot sampleImage).step (.syscall (.sbrk 1))).any (fun s =>
      decide (s.mode = .user ∧ s.current ≠ s.idleTask ∧ s.mm.fault = false ∧
        s.currentTask.heap ≠ 0 ∧ 0 ≤ s.currentTask.heapPages ∧ s.mm.freeFrames ≠ 0 ∧
        (heapInitPage : Int) + s.currentTask.heapPages + s.mm.freeFrames < totalPages ∧
        s.mm.freeFrames < newPages (0x200000 : Int32).toInt s.currentTask)) = true by
      decide +kernel)
  obtain ⟨mode, busy, before, made, nonneg, some_, room, many⟩ := of_decide_eq_true seen
  have booted : Reachable sampleImage (boot sampleImage) := .start
  have run : Reachable sampleImage s := booted.step trivial finished
  have sized := (housed_of_reachable run).sized s.current
  have unopened : ∀ mm, openHeap s.currentTask mm = (s.currentTask, mm) := fun _ => if_neg made
  have noFault : (Zeos.sysSbrk 0x200000 s.currentTask s.mm).2.2.fault = false :=
    sysSbrk_noFault 0x200000 growing nonneg (by rw [unopened]; exact room) before
  obtain ⟨sameTask, sameFrames, left⟩ := sysSbrk_leaves 0x200000 nonneg sized
    (housed_of_reachable run).mapped.tidy made growing some_ many noFault
  have first := sbrk_taken mode busy noFault
  obtain ⟨_, task, memory⟩ := sbrk_written first
  let s₁ := s.systemCall (.sbrk 0x200000)
  have again : s₁.currentTask = s.currentTask := task.trans sameTask
  have free : s₁.mm.freeFrames = s.mm.freeFrames :=
    freeFrames_congr ((congrArg Memory.physMem memory).trans sameFrames)
  have noFaultAgain : (Zeos.sysSbrk 0x200000 s₁.currentTask s₁.mm).2.2.fault = false := by
    rw [again]
    refine sysSbrk_noFault 0x200000 growing nonneg ?_ (by rw [memory]; exact noFault)
    rw [unopened, free]
    exact room
  have failing : (Zeos.sysSbrk 0x200000 s₁.currentTask s₁.mm).1 = -enomem := by
    refine sysSbrk_exhausted 0x200000 growing (again ▸ nonneg) ?_ noFaultAgain
    rw [again, unopened, free]
    exact many
  have second : s₁.step (.syscall (.sbrk 0x200000)) = some (s₁.systemCall (.sbrk 0x200000)) :=
    sbrk_taken rfl busy noFaultAgain
  have failed := (sbrk_written second).1.trans failing
  refine ⟨s, s₁, _, finished, first, second, failed, again ▸ made, free ▸ some_, ?_⟩
  refine (failed_sbrk_unwound (run.step trivial first) second failed).mpr (Or.inr ⟨?_, Or.inr ?_⟩)
  · rw [again]
    exact made
  · rw [again, free, memory]
    exact ⟨many, Or.inr left⟩

/-- A first call for two megabytes fails, and the heap that it created stays. -/
theorem failed_sbrk_keeps_heap : ∃ s',
    (boot sampleImage).step (.syscall (.sbrk 0x200000)) = some s' ∧
      s'.eax (boot sampleImage).current = -enomem ∧
        ¬ Unwound (boot sampleImage).currentTask (boot sampleImage).mm
          (s'.task (boot sampleImage).current) s'.mm := by
  have start : let s := boot sampleImage
      s.mode = .user ∧ s.current ≠ s.idleTask ∧ s.mm.fault = false ∧
        s.currentTask.heap = 0 ∧ 0 ≤ s.currentTask.heapPages ∧
        s.mm.freeFrames ≠ 0 ∧
        heapInitPage + (openHeap s.currentTask s.mm).1.heapPages +
          (openHeap s.currentTask s.mm).2.freeFrames < totalPages ∧
        (openHeap s.currentTask s.mm).2.freeFrames <
          newPages (0x200000 : Int32).toInt
            (openHeap s.currentTask s.mm).1 := by
    decide +kernel
  obtain ⟨mode, busy, before, missing, nonneg, some_, room, many⟩ := start
  have growing : 0 ≤ (0x200000 : Int32).toInt := by decide
  have noFault := sysSbrk_noFault 0x200000 growing nonneg room before
  have failed := sysSbrk_exhausted 0x200000 growing nonneg many noFault
  have taken := sbrk_taken mode busy noFault
  obtain ⟨result, task, memory⟩ := sbrk_written taken
  have run : Reachable sampleImage (boot sampleImage) := .start
  refine ⟨_, taken, result.trans failed, ?_⟩
  rw [task, memory, sysSbrk_unwound_iff 0x200000 nonneg
    ((housed_of_reachable run).sized _) (housed_of_reachable run).mapped.tidy
    noFault failed]
  rintro (⟨_, negative | none⟩ | ⟨heap, _⟩)
  · exact absurd growing (not_le.mpr negative)
  · exact some_ none
  · exact heap missing

end Kernel

end Zeos
