import Zeos.Sched.Step

/-!
# The scheduler after boot

`init_sched` links every PCB in `freequeue`; `init_idle` and `init_task1` take
the first two of them.
-/

namespace Zeos

namespace Kernel

variable {s : Kernel} {v : View} {q : Queue} {t : TaskId}

/-- The queues when user mode is entered for the first time. -/
def bootView : View where
  queue := Function.update (fun _ => []) .freequeue [2, 3, 4, 5, 6, 7, 8, 9]
  status _ := .stRun
  context := Function.update (fun _ => .exited) 0 .cpuIdle
  live := Function.update (Function.update (fun _ => false) 0 true) 1 true
  current := 1
  idle := 0

/-- The four global list heads after `INIT_LIST_HEAD`, before any PCB. -/
theorem initHeads_threads {semaphores : SemId → Semaphore}
    (unused : ∀ n, (semaphores n).ownerPID = -1) :
    Threads (initListHead (initListHead (initListHead (initListHead
      ⟨fun _ => none, fun _ => none⟩ (.head .freequeue)) (.head .readyqueue))
      (.head .blocked)) (.head .keyboardqueue)) semaphores false := by
  have heads : ∀ q r : Queue, q ≠ r →
      [Node.head q].Disjoint [Node.head r] := by
    intro q r different
    simpa using different.symm
  have dormant : ∀ n, ¬ Active semaphores (.semaphore n) := by
    intro n
    simp [Active, unused n]
  refine ⟨⟨?_, ?_⟩, ?_, fun _ _ => ⟨rfl, rfl⟩, rfl⟩
  · intro q active
    cases q with
    | semaphore n => exact absurd active (dormant n)
    | _ => exact ⟨⟨rfl, rfl⟩, List.nodup_singleton _⟩
  · intro q r qActive rActive different
    cases q with
    | semaphore n => exact absurd qActive (dormant n)
    | _ =>
        cases r with
        | semaphore n => exact absurd rActive (dormant n)
        | _ => exact heads _ _ different
  · intro q inactive
    cases q with
    | semaphore n => rfl
    | _ => exact absurd trivial inactive

/-- Linking several PCBs one after the other. -/
theorem listAddTail_all (active : Active s.semaphores q) :
    ∀ (tasks : List TaskId) {s' : Kernel} {v : View}, s'.Refines v →
      s'.semaphores = s.semaphores → tasks.Nodup → (∀ t ∈ tasks, v.Loose t) →
      (tasks.foldl (fun s i => s.listAddTail i q) s').Refines
        { v with queue := Function.update v.queue q (v.queue q ++ tasks) }
  | [], s', v, refines, _, _, _ => by simpa using refines
  | t :: tasks, s', v, refines, same, nodup, loose => by
      have first := refines.listAddTail (same ▸ active)
        (loose t List.mem_cons_self)
      have fresh := List.nodup_cons.mp nodup
      have later := listAddTail_all active tasks first same fresh.2 (by
        intro u member r inQueue
        by_cases isQueue : r = q
        · subst isQueue
          simp only [Function.update_self] at inQueue
          rcases List.mem_append.mp inQueue with before | isFirst
          · exact loose u (List.mem_cons_of_mem t member) _ before
          · exact fresh.1 (List.mem_singleton.mp isFirst ▸ member)
        · simp only [Function.update_of_ne isQueue] at inQueue
          exact loose u (List.mem_cons_of_mem t member) _ inQueue)
      simpa using later

theorem Refines.setLive (refines : s.Refines v) (t : TaskId) (live : Bool) :
    ({ s with live := Function.update s.live t live } : Kernel).Refines
      { v with live := Function.update v.live t live } := by
  obtain ⟨threads, rfl⟩ := refines
  exact ⟨threads, rfl⟩

theorem Refines.setIdle (refines : s.Refines v) (t : TaskId) :
    ({ s with idleTask := t } : Kernel).Refines { v with idle := t } := by
  obtain ⟨threads, rfl⟩ := refines
  exact ⟨threads, rfl⟩

theorem Refines.setCurrent (refines : s.Refines v) (t : TaskId) :
    ({ s with current := t } : Kernel).Refines { v with current := t } := by
  obtain ⟨threads, rfl⟩ := refines
  exact ⟨threads, rfl⟩

theorem initTask_refines (refines : s.Refines v) (member : t ∈ v.queue .freequeue)
    (pid : Int) :
    (s.initTask t pid).Refines
      { v.remove t .freequeue with live := Function.update v.live t true } := by
  have taken := refines.listDel member
  have filled := taken.modTask_same t (fun p =>
    { p with pid := pid, quantum := defaultQuantum, heapSize := 0 }) rfl
  have started : (((s.listDel t).modTask t fun p =>
      { p with pid := pid, quantum := defaultQuantum, heapSize := 0 }).initStats
        t).Refines _ := ⟨filled.threads, filled.view⟩
  exact (allocateDIR_refines started t).setLive t true

theorem initSched_refines (image : BootImage) :
    (zeroed image).initSched.Refines
      { queue := Function.update (fun _ => []) .freequeue
          (List.finRange nrTasks)
        status := fun _ => .stRun
        context := fun _ => .exited
        live := fun _ => false
        current := 0
        idle := 0 } := by
  let heads : Kernel := { zeroed image with
    semaphores := fun n => { (zeroed image).semaphores n with ownerPID := -1 }
    links := initListHead (initListHead (initListHead (initListHead
      (zeroed image).links (.head .freequeue)) (.head .readyqueue))
      (.head .blocked)) (.head .keyboardqueue) }
  have empty : heads.queue = fun _ => [] := by
    funext q
    cases q <;> rfl
  have initial : heads.Refines
      { queue := fun _ => []
        status := fun _ => .stRun
        context := fun _ => .exited
        live := fun _ => false
        current := 0
        idle := 0 } :=
    ⟨initHeads_threads fun _ => rfl, by
      unfold Kernel.view
      rw [empty]
      rfl⟩
  have linked := listAddTail_all (s := heads) (q := .freequeue) trivial
    (List.finRange nrTasks) initial rfl (List.nodup_finRange _)
    fun t _ r => by simp
  exact linked

theorem boot_refines (image : BootImage) : (boot image).Refines bootView := by
  have initial := initSched_refines image
  unfold boot
  generalize (zeroed image).initSched = s at initial
  have firstFree : s.listFirst .freequeue = some 0 := initial.listFirst rfl
  have named := initial.setIdle 0
  have idle := initTask_refines named (t := 0) (by decide) 0
  have rested := idle.setContext 0 .cpuIdle
  have idleState : s.initIdle = { ({ s with idleTask := 0 } : Kernel).initTask 0 0 with
      context := Function.update (({ s with idleTask := 0 } : Kernel).initTask
        0 0).context 0 .cpuIdle } := by
    rw [initIdle, firstFree]
  rw [← idleState] at rested
  generalize s.initIdle = s₁ at rested
  have nextFree : s₁.listFirst .freequeue = some 1 := rested.listFirst rfl
  have first := initTask_refines rested (t := 1) (by decide) 1
  have running := first.setCurrent 1
  have state : s₁.initTask1 = { ({ s₁.initTask 1 1 with current := 1 } : Kernel) with
      mm := (s₁.initTask 1 1).mm.setUserPages
        ((s₁.initTask 1 1).task 1).dirPagesBaseAddr
      cr3 := ((s₁.initTask 1 1).task 1).dirPagesBaseAddr } := by
    rw [initTask1, nextFree]
  rw [state]
  refine ⟨running.threads, running.view.trans ?_⟩
  unfold bootView View.remove
  rw [View.mk.injEq]
  refine ⟨?_, rfl, rfl, rfl, rfl, rfl⟩
  funext q
  cases q with
  | freequeue => decide
  | _ => rfl

theorem boot_view_live (image : BootImage) : (boot image).live = bootView.live :=
  congrArg View.live (boot_refines image).view

/-- Only the idle process and the first process exist after boot. -/
theorem boot_live {image : BootImage} {t : TaskId}
    (alive : (boot image).live t = true) : t = 0 ∨ t = 1 := by
  rw [boot_view_live] at alive
  revert t
  decide

end Kernel

end Zeos
