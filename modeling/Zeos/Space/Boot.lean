import Zeos.Space.Step

/-!
# Memory after boot

`init_mm` gives every directory the same table; `set_user_pages` maps the code
and the data of the first process to every other frame from `NUM_PAG_KERNEL`
on.
-/

namespace Zeos

namespace Memory

variable {mm : Memory} {count : Nat}

/-- The frame map after the first `count` frames were given out. -/
def bootFrames (count frame : Nat) : FrameState :=
  if frame < numPagKernel ∨
      (frame < numPagKernel + 2 * count ∧ frame % 2 = 0) then
    .usedFrame
  else
    .freeFrame

theorem bootFrames_used {frame : Nat} : bootFrames count frame = .usedFrame ↔
    frame < numPagKernel ∨
      (frame < numPagKernel + 2 * count ∧ frame % 2 = 0) := by
  unfold bootFrames
  split_ifs with used
  · simpa using used
  · simpa using used

theorem initMm_frames (taskPage : Nat) :
    (initMm taskPage).physMem = bootFrames 0 := by
  funext frame
  unfold bootFrames initMm
  dsimp only
  by_cases isKernel : frame < numPagKernel
  · rw [if_pos isKernel, if_pos (Or.inl isKernel)]
  · rw [if_neg isKernel, if_neg (by omega)]

theorem allocFrame_boot (frames : mm.physMem = bootFrames count)
    (few : count < (totalPages - numPagKernel) / 2) :
    mm.allocFrame = some (numPagKernel + 2 * count,
      { mm with physMem := bootFrames (count + 1) }) := by
  have free : ∀ k, bootFrames count (numPagKernel + 2 * k) = .freeFrame ↔
      count ≤ k := by
    intro k
    unfold bootFrames
    by_cases early : k < count
    · rw [if_pos (Or.inr ⟨by omega, by simp only [numPagKernel]; omega⟩)]
      exact iff_of_false (by simp) (by omega)
    · rw [if_neg (by simp only [numPagKernel]; omega)]
      exact iff_of_true rfl (by omega)
  have found : frameScan.find? (fun i => mm.physMem i = .freeFrame) =
      some (numPagKernel + 2 * count) := by
    unfold frameScan
    rw [List.find?_map, frames]
    have first : (List.range ((totalPages - numPagKernel) / 2)).find?
        ((fun i => decide (bootFrames count i = .freeFrame)) ∘
          fun k => numPagKernel + 2 * k) = some count := by
      rw [List.find?_range_eq_some]
      refine ⟨?_, List.mem_range.mpr few, fun k before => ?_⟩
      · simp only [Function.comp_apply, free, Nat.le_refl, decide_true]
      · simp only [Function.comp_apply, free, Bool.not_eq_true',
          decide_eq_false_iff_not]
        omega
    rw [first]
    rfl
  have next : Function.update mm.physMem (numPagKernel + 2 * count) .usedFrame =
      bootFrames (count + 1) := by
    funext i
    by_cases same : i = numPagKernel + 2 * count
    · rw [same, Function.update_self]
      refine (bootFrames_used.mpr (Or.inr ⟨by omega, ?_⟩)).symm
      simp only [numPagKernel]
      omega
    · rw [Function.update_of_ne same, frames]
      unfold bootFrames
      simp only [numPagKernel] at same ⊢
      congr 1
      apply propext
      omega
  unfold allocFrame
  rw [found]
  dsimp only
  rw [next]

/-- The loops of `set_user_pages`. -/
theorem setUserPage_loop (dir : DirId) (first : Nat) (rw : Bool)
    (frames : mm.physMem = bootFrames count) (rounds : Nat)
    (few : count + rounds ≤ (totalPages - numPagKernel) / 2)
    (inTable : first + rounds ≤ totalPages) :
    (List.range rounds).foldl (setUserPage dir first rw) mm =
      { mm with
        physMem := bootFrames (count + rounds)
        pagusrTable := Function.update mm.pagusrTable dir fun p =>
          if first ≤ p ∧ p < first + rounds then
            { present := true, rw := rw, user := true,
              pbaseAddr := numPagKernel + 2 * (count + (p - first)) }
          else
            mm.pagusrTable dir p } := by
  induction rounds with
  | zero =>
      have table : (fun p => if first ≤ p ∧ p < first + 0 then
          ({ present := true, rw := rw, user := true,
             pbaseAddr := numPagKernel + 2 * (count + (p - first)) } :
              PageTableEntry)
          else mm.pagusrTable dir p) = mm.pagusrTable dir := by
        funext p
        exact if_neg (by omega)
      rw [table, Function.update_eq_self]
      simp [← frames]
  | succ rounds inductionHypothesis =>
      rw [List.range_succ, List.foldl_append,
        inductionHypothesis (by omega) (by omega)]
      simp only [List.foldl_cons, List.foldl_nil]
      unfold setUserPage
      rw [allocFrame_boot (show _ = bootFrames (count + rounds) from rfl)
        (by omega)]
      dsimp only
      unfold setEntry
      rw [if_pos ⟨by omega, by omega⟩]
      simp only [Function.update_self, Function.update_idem, Int.toNat_natCast,
        Nat.add_assoc]
      congr 2
      funext p
      by_cases last : p = first + rounds
      · subst last
        rw [Function.update_self, if_pos (by omega)]
        congr 3
        omega
      · rw [Function.update_of_ne last]
        split_ifs <;> first | rfl | omega

/-- The table of the first process. -/
def userTable (taskPage page : Nat) : PageTableEntry :=
  if pagLogInitCode ≤ page ∧ page < heapInitPage then
    { present := true
      rw := decide (pagLogInitData ≤ page)
      user := true
      pbaseAddr := numPagKernel + 2 * (page - pagLogInitCode) }
  else
    initTablePages taskPage page

theorem setUserPages_boot {mm : Memory} {dir : DirId} {taskPage : Nat}
    (frames : mm.physMem = bootFrames 0)
    (table : mm.pagusrTable dir = initTablePages taskPage) :
    mm.setUserPages dir = { mm with
      physMem := bootFrames (numPagCode + numPagData)
      pagusrTable :=
        Function.update mm.pagusrTable dir (userTable taskPage) } := by
  unfold setUserPages
  rw [setUserPage_loop dir pagLogInitCode false frames numPagCode (by decide)
      (by decide),
    setUserPage_loop dir pagLogInitData true
      (show _ = bootFrames (0 + numPagCode) from rfl) numPagData (by decide) (by decide)]
  simp only [Function.update_self, Function.update_idem, table, Nat.zero_add]
  congr 2
  funext p
  unfold userTable
  have code : numPagCode = 8 ∧ pagLogInitCode = 256 ∧ numPagKernel = 256 :=
    ⟨rfl, rfl, rfl⟩
  have data : numPagData = 20 ∧ pagLogInitData = 264 ∧ heapInitPage = 284 :=
    ⟨rfl, rfl, rfl⟩
  by_cases isData : pagLogInitData ≤ p ∧ p < pagLogInitData + numPagData
  · have writable : decide (pagLogInitData ≤ p) = true := decide_eq_true isData.1
    have frame : numPagKernel + 2 * (numPagCode + (p - pagLogInitData)) =
        numPagKernel + 2 * (p - pagLogInitCode) := by
      omega
    rw [if_pos isData, if_pos (by omega), writable, frame]
  · by_cases isCode : pagLogInitCode ≤ p ∧ p < pagLogInitCode + numPagCode
    · have readOnly : decide (pagLogInitData ≤ p) = false :=
        decide_eq_false (by omega)
      rw [if_neg isData, if_pos isCode, if_pos (by omega), readOnly]
    · rw [if_neg isData, if_neg isCode, if_neg (by omega)]

end Memory

namespace Kernel

variable {s : Kernel}

/-- Linking PCBs concerns neither their other fields nor memory. -/
theorem listAddTail_space (q : Queue) (tasks : List TaskId) (s : Kernel) :
    (tasks.foldl (fun s i => s.listAddTail i q) s).task = s.task ∧
      (tasks.foldl (fun s i => s.listAddTail i q) s).mm = s.mm := by
  induction tasks generalizing s with
  | nil => exact ⟨rfl, rfl⟩
  | cons t tasks inductionHypothesis => exact inductionHypothesis _

theorem initSched_space (s : Kernel) :
    s.initSched.task = s.task ∧ s.initSched.mm = s.mm := by
  unfold initSched
  exact listAddTail_space .freequeue (List.finRange nrTasks) _

theorem initTask_space {i : DirId} (t : TaskId) (pid : Int)
    (first : (List.finRange nrTasks).find? (fun i => s.mm.dirCounter i = 0) =
      some i) :
    (s.initTask t pid).task = Function.update s.task t
        { s.task t with
          pid := pid, quantum := defaultQuantum, heapSize := 0,
          dirPagesBaseAddr := i } ∧
      (s.initTask t pid).mm = { s.mm with
        dirCounter := Function.update s.mm.dirCounter i
          (s.mm.dirCounter i + 1) } := by
  have found : (List.finRange nrTasks).find? (fun i =>
      (((s.listDel t).modTask t fun p => { p with
        pid := pid, quantum := defaultQuantum, heapSize := 0 }).initStats
          t).mm.dirCounter i = 0) = some i := first
  unfold initTask allocateDIR
  dsimp only
  rw [found]
  constructor
  · simp [modTask, initStats, listDel]
  · rfl

/-- The use counts after boot: one for idle and one for the first process. -/
def bootUses : DirId → Int :=
  Function.update (Function.update (fun _ => 0) 0 1) 1 1

/-- The address spaces after boot. -/
theorem boot_space (image : BootImage) :
    (∀ t : TaskId, SameRegion { dirPagesBaseAddr := if t = 1 then 1 else 0 }
        ((boot image).task t)) ∧
      (boot image).mm = { Memory.initMm image.taskPage with
        dirCounter := bootUses
        physMem := Memory.bootFrames (numPagCode + numPagData)
        pagusrTable := Function.update
          (Memory.initMm image.taskPage).pagusrTable 1
            (Memory.userTable image.taskPage) } := by
  have initial := initSched_refines image
  have space := initSched_space (zeroed image)
  unfold boot
  generalize (zeroed image).initSched = s at initial space
  obtain ⟨task, mm⟩ := space
  change s.task = fun _ => {} at task
  change s.mm = Memory.initMm image.taskPage at mm
  have unused : s.mm.dirCounter = fun _ => 0 := by
    rw [mm]
    rfl
  have firstFree : s.listFirst .freequeue = some 0 := initial.listFirst rfl
  have named := initial.setIdle 0
  have idle := (initTask_refines named (t := 0) (by decide) 0).setContext 0
    .cpuIdle
  have idleSpace := initTask_space (s := { s with idleTask := 0 }) (i := 0) 0 0
    (by simp only [unused]; decide)
  have idleState : s.initIdle =
      { ({ s with idleTask := 0 } : Kernel).initTask 0 0 with
        context := Function.update (({ s with idleTask := 0 } : Kernel).initTask
          0 0).context 0 .cpuIdle } := by
    rw [initIdle, firstFree]
  have idleTask : s.initIdle.task = Function.update s.task 0
      { s.task 0 with
        pid := 0, quantum := defaultQuantum, heapSize := 0,
        dirPagesBaseAddr := 0 } := by
    rw [idleState]
    exact idleSpace.1
  have idleMm : s.initIdle.mm = { s.mm with
      dirCounter := Function.update s.mm.dirCounter 0
        (s.mm.dirCounter 0 + 1) } := by
    rw [idleState]
    exact idleSpace.2
  have oneUse : s.initIdle.mm.dirCounter = Function.update (fun _ => 0) 0 1 := by
    rw [idleMm, unused]
    rfl
  rw [← idleState] at idle
  generalize s.initIdle = s₁ at idle idleTask idleMm oneUse
  have nextFree : s₁.listFirst .freequeue = some 1 := idle.listFirst rfl
  obtain ⟨userTask, userMm⟩ := initTask_space (s := s₁) (i := 1) 1 1
    (by simp only [oneUse]; decide)
  have ownDir : ((s₁.initTask 1 1).task 1).dirPagesBaseAddr = 1 := by
    rw [userTask, Function.update_self]
  have state : s₁.initTask1 = { s₁.initTask 1 1 with
      mm := (s₁.initTask 1 1).mm.setUserPages 1
      cr3 := 1
      current := 1 } := by
    rw [initTask1, nextFree]
    dsimp only
    rw [ownDir]
  rw [state]
  constructor
  · intro t
    change SameRegion _ ((s₁.initTask 1 1).task t)
    rw [userTask, idleTask, task]
    by_cases isUser : t = 1
    · subst isUser
      constructor <;> rfl
    · rw [Function.update_of_ne isUser, if_neg isUser]
      by_cases isIdle : t = 0
      · subst isIdle
        constructor <;> rfl
      · rw [Function.update_of_ne isIdle]
        constructor <;> rfl
  · dsimp only
    have twoUses : Function.update s₁.mm.dirCounter 1
        (s₁.mm.dirCounter 1 + 1) = bootUses := by
      have none : Function.update (fun _ : DirId => (0 : Int)) 0 1 1 = 0 :=
        Function.update_of_ne (by decide) _ _
      rw [oneUse, none]
      rfl
    rw [userMm, twoUses, idleMm, mm]
    exact Memory.setUserPages_boot (Memory.initMm_frames image.taskPage) rfl

theorem boot_used (image : BootImage) (frame : Nat) :
    (boot image).mm.physMem frame = .usedFrame ↔
      frame < numPagKernel ∨
        (frame < numPagKernel + 2 * (numPagCode + numPagData) ∧
          frame % 2 = 0) := by
  rw [(boot_space image).2]
  exact Memory.bootFrames_used

theorem boot_table (image : BootImage) (dir : DirId) (page : Nat) :
    (boot image).mm.pagusrTable dir page =
      if dir = 1 then Memory.userTable image.taskPage page
      else Memory.initTablePages image.taskPage page := by
  rw [(boot_space image).2]
  dsimp only
  by_cases isUser : dir = 1
  · rw [isUser, Function.update_self, if_pos rfl]
  · rw [Function.update_of_ne isUser, if_neg isUser]
    rfl

/-- The data pages of the first process are the only ones at boot. -/
theorem boot_dataEntry (image : BootImage) (dir : DirId) {page : Nat}
    (high : pagLogInitData ≤ page) :
    (boot image).mm.pagusrTable dir page =
      if dir = 1 ∧ page < heapInitPage then
        { present := true, rw := true, user := true,
          pbaseAddr := numPagKernel + 2 * (page - pagLogInitCode) }
      else {} := by
  have data : numPagKernel = 256 ∧ pagLogInitCode = 256 ∧ pagLogInitData = 264 :=
    ⟨rfl, rfl, rfl⟩
  have empty : Memory.initTablePages image.taskPage page = {} :=
    if_neg (by omega)
  have writable : decide (pagLogInitData ≤ page) = true := decide_eq_true high
  rw [boot_table, empty]
  unfold Memory.userTable
  rw [empty, writable]
  by_cases isUser : dir = 1
  · by_cases isData : page < heapInitPage
    · rw [if_pos isUser, if_pos ⟨by omega, isData⟩, if_pos ⟨isUser, isData⟩]
    · rw [if_pos isUser, if_neg fun both => isData both.2,
        if_neg fun both => isData both.2]
  · rw [if_neg isUser, if_neg fun both => isUser both.1]

end Kernel

end Zeos
