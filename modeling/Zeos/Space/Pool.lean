import Zeos.Library.Runs
import Zeos.Space.Boot

/-!
# The frame allocator as a pool

A pool is the set of frames that were handed out and not given back.
`alloc_frame` looks at every other frame from `NUM_PAG_KERNEL` on; `free_frame`
asks for a frame above `NUM_PAG_KERNEL`, so that the first one never comes back.
-/

namespace Zeos

/-- `init_frames`. -/
def Memory.initFrames (mm : Memory) : Memory :=
  { mm with physMem := fun i => if i < numPagKernel then .usedFrame else .freeFrame }

theorem Memory.initMm_initFrames (taskPage : Nat) :
    (initMm taskPage).initFrames = initMm taskPage := rfl

/-- A call of the allocator. -/
inductive FrameCall where
  | allocFrame
  | freeFrame (frame : Nat)

/-- Memory, and the frames that were returned by `alloc_frame` and not freed
since. -/
structure FramePool where
  mm : Memory
  allocated : Finset Nat

namespace FramePool

open Library Memory

/-- A call; only allocated frames are freed. -/
def step (p : FramePool) : FrameCall → Option FramePool
  | .allocFrame =>
      match p.mm.allocFrame with
      | none => some p
      | some (frame, mm) => some ⟨mm, insert frame p.allocated⟩
  | .freeFrame frame =>
      if frame ∈ p.allocated then some ⟨p.mm.freeFrame frame, p.allocated.erase frame⟩
      else none

/-- Right after `init_frames`. -/
def initial (mm : Memory) : FramePool := ⟨mm.initFrames, ∅⟩

/-- What makes an allocator a pool: it hands out the first frame of the scan that
is not allocated, and fails only when all of them are. -/
structure IsPool (p : FramePool) : Prop where
  granted : ∀ frame mm, p.mm.allocFrame = some (frame, mm) →
    numPagKernel ≤ frame ∧ frame < totalPages ∧ frame ∉ p.allocated
  available : p.mm.allocFrame.map Prod.fst = frameScan.find? fun i => i ∉ p.allocated
  exhausted : p.mm.allocFrame = none ↔
    p.allocated.card = (totalPages - numPagKernel) / 2

/-- The map of frames marks the allocated frames of the scan, and no others are
allocated. -/
structure Tracks (p : FramePool) : Prop where
  marked : ∀ frame ∈ frameScan, p.mm.physMem frame = .freeFrame ↔ frame ∉ p.allocated
  inScan : ∀ frame ∈ p.allocated, frame ∈ frameScan

variable {p p' : FramePool} {frame : Nat} {mm : Memory}

theorem length_frameScan : frameScan.length = (totalPages - numPagKernel) / 2 := by
  rw [frameScan, List.length_map, List.length_range]

theorem Tracks.isPool (tracks : Tracks p) : IsPool p := by
  have same : frameScan.find? (fun i => p.mm.physMem i = .freeFrame) =
      frameScan.find? fun i => i ∉ p.allocated := by
    apply List.find?_congr
    intro frame inScan
    exact decide_eq_decide.mpr (tracks.marked frame inScan)
  have available : p.mm.allocFrame.map Prod.fst =
      frameScan.find? fun i => i ∉ p.allocated := by
    rw [← same, allocFrame]
    cases frameScan.find? fun i => p.mm.physMem i = .freeFrame with
    | none => rfl
    | some frame => rfl
  have subset : p.allocated ⊆ frameScan.toFinset := by
    intro frame member
    exact List.mem_toFinset.mpr (tracks.inScan frame member)
  have size : frameScan.toFinset.card = (totalPages - numPagKernel) / 2 := by
    rw [List.toFinset_card_of_nodup frameScan_nodup, length_frameScan]
  constructor
  · intro frame mm found
    rw [found, Option.map_some] at available
    have member := List.mem_of_find?_eq_some available.symm
    have fresh := List.find?_some available.symm
    obtain ⟨lower, upper⟩ := mem_frameScan member
    exact ⟨lower, upper, of_decide_eq_true fresh⟩
  · exact available
  · rw [← Option.map_eq_none_iff (f := Prod.fst), available, List.find?_eq_none, ← size]
    constructor
    · intro all
      have whole : frameScan.toFinset ⊆ p.allocated := by
        intro frame member
        have taken := all frame (List.mem_toFinset.mp member)
        simpa using taken
      rw [subset.antisymm whole]
    · intro full frame member
      have whole := Finset.eq_of_subset_of_card_le subset (le_of_eq full.symm)
      have taken : frame ∈ p.allocated := by
        rw [whole]
        exact List.mem_toFinset.mpr member
      simpa using taken

theorem tracks_initial (mm : Memory) : Tracks (initial mm) where
  marked frame inScan := by
    obtain ⟨lower, -⟩ := mem_frameScan inScan
    refine iff_of_true (if_neg (Nat.not_lt.mpr lower)) (Finset.notMem_empty frame)
  inScan frame member := absurd member (Finset.notMem_empty frame)

theorem Tracks.alloc (tracks : Tracks p) (found : p.mm.allocFrame = some (frame, mm)) :
    Tracks ⟨mm, insert frame p.allocated⟩ := by
  have member : frame ∈ frameScan := by
    have available := tracks.isPool.available
    rw [found, Option.map_some] at available
    exact List.mem_of_find?_eq_some available.symm
  obtain ⟨-, -, -, rfl, -⟩ := allocFrame_some found
  constructor
  · intro other inScan
    dsimp only
    rw [Finset.mem_insert, not_or, ← tracks.marked other inScan]
    by_cases same : other = frame
    · rw [same, Function.update_self]
      simp
    · rw [Function.update_of_ne same]
      simp [same]
  · intro other allocated
    rcases Finset.mem_insert.mp allocated with same | earlier
    · rw [same]
      exact member
    · exact tracks.inScan other earlier

theorem Tracks.free (tracks : Tracks p) (allocated : frame ∈ p.allocated)
    (above : frame ≠ numPagKernel) :
    Tracks ⟨p.mm.freeFrame frame, p.allocated.erase frame⟩ := by
  obtain ⟨lower, upper⟩ := mem_frameScan (tracks.inScan frame allocated)
  have freed : p.mm.freeFrame frame =
      { p.mm with physMem := Function.update p.mm.physMem frame .freeFrame } :=
    if_pos ⟨lt_of_le_of_ne lower (Ne.symm above), upper⟩
  constructor
  · intro other inScan
    dsimp only
    rw [freed, Finset.mem_erase]
    by_cases same : other = frame
    · rw [same]
      simp
    · dsimp only
      rw [Function.update_of_ne same, tracks.marked other inScan]
      simp [same]
  · intro other member
    exact tracks.inScan other (Finset.mem_of_mem_erase member)

/-- The first frame of the scan stays allocated. -/
def KeepsFirst (_ : FramePool) (call : FrameCall) : Prop := call ≠ .freeFrame numPagKernel

theorem Tracks.step (tracks : Tracks p) {call : FrameCall} (allowed : KeepsFirst p call)
    (taken : p.step call = some p') : Tracks p' := by
  cases call with
  | allocFrame =>
      unfold FramePool.step at taken
      cases found : p.mm.allocFrame with
      | none =>
          simp only [found] at taken
          rw [← Option.some.inj taken]
          exact tracks
      | some grant =>
          obtain ⟨frame, mm⟩ := grant
          simp only [found] at taken
          rw [← Option.some.inj taken]
          exact tracks.alloc found
  | freeFrame frame =>
      unfold FramePool.step at taken
      dsimp only at taken
      split_ifs at taken with allocated
      rw [← Option.some.inj taken]
      exact tracks.free allocated fun same => allowed (by rw [same])

/-- As long as the first frame is not freed, the allocator is a pool. -/
theorem frames_pool {mm : Memory} {p : FramePool}
    (run : Reach step KeepsFirst (initial mm) p) : IsPool p := by
  apply Tracks.isPool
  exact Reach.invariant (tracks_initial mm)
    (fun _ _ _ tracks allowed taken => tracks.step allowed taken) run

/-- Two frames are handed out and the second one is given back. -/
theorem frames_pool_returned :
    let p := lastState step (initial (initMm 22)) [.allocFrame, .allocFrame, .freeFrame 258]
    IsPool p ∧ p.allocated = {256} := by
  refine ⟨frames_pool (Reach.lastState fun call member p => ?_), by decide +kernel⟩
  simp only [List.mem_cons, List.not_mem_nil, or_false] at member
  rcases member with rfl | rfl | rfl
  · exact fun same => nomatch same
  · exact fun same => nomatch same
  · exact fun same => absurd (FrameCall.freeFrame.inj same) (by decide)

/-- The frames that the first `count` calls of `alloc_frame` return. -/
def firstFrames (count : Nat) : Finset Nat :=
  (Finset.range count).image fun k => numPagKernel + 2 * k

theorem mem_firstFrames {count : Nat} :
    numPagKernel ∈ firstFrames count ↔ 0 < count := by
  simp only [firstFrames, Finset.mem_image, Finset.mem_range]
  constructor
  · rintro ⟨k, few, -⟩
    omega
  · intro positive
    exact ⟨0, positive, rfl⟩

theorem card_firstFrames (count : Nat) : (firstFrames count).card = count := by
  rw [firstFrames, Finset.card_image_of_injective, Finset.card_range]
  intro i j same
  simp only [numPagKernel] at same
  omega

theorem allocs_run (mm : Memory) (count : Nat) (few : count ≤ (totalPages - numPagKernel) / 2) :
    Reach step (fun _ _ => True) (initial mm)
      ⟨{ mm with physMem := bootFrames count }, firstFrames count⟩ := by
  induction count with
  | zero =>
      have frames : mm.initFrames = { mm with physMem := bootFrames 0 } := by
        rw [initFrames, ← initMm_frames 0]
        rfl
      rw [initial, frames]
      exact .start
  | succ count inductionHypothesis =>
      have taken : step ⟨{ mm with physMem := bootFrames count }, firstFrames count⟩
          .allocFrame = some ⟨{ mm with physMem := bootFrames (count + 1) },
            firstFrames (count + 1)⟩ := by
        unfold step
        rw [allocFrame_boot (show _ = bootFrames count from rfl) (by omega), firstFrames,
          firstFrames, Finset.range_add_one, Finset.image_insert]
      exact (inductionHypothesis (by omega)).step trivial taken

/-- All frames are handed out and the first one is given back: it is not found
again. -/
theorem first_frame_lost : ∃ p, Reach step (fun _ _ => True) (initial (initMm 22)) p ∧
    ¬IsPool p := by
  let full : Memory := { initMm 22 with physMem := bootFrames 384 }
  have run : Reach step (fun _ _ => True) (initial (initMm 22)) ⟨full, firstFrames 384⟩ :=
    allocs_run (initMm 22) 384 (by decide)
  have taken : step ⟨full, firstFrames 384⟩ (.freeFrame numPagKernel) =
      some ⟨full, (firstFrames 384).erase numPagKernel⟩ := by
    have kept : full.freeFrame numPagKernel = full := if_neg (by decide)
    unfold step
    dsimp only
    rw [if_pos (mem_firstFrames.mpr (by decide)), kept]
  refine ⟨_, run.step trivial taken, fun pool => ?_⟩
  have none : full.allocFrame = none := by
    rw [allocFrame_none_iff, freeFrames, List.countP_eq_zero]
    intro frame member
    obtain ⟨k, inRange, rfl⟩ := List.mem_map.mp member
    have few := List.mem_range.mp inRange
    have used : bootFrames 384 (numPagKernel + 2 * k) = .usedFrame := by
      rw [bootFrames_used]
      simp only [numPagKernel, totalPages] at few ⊢
      omega
    change ¬decide (bootFrames 384 (numPagKernel + 2 * k) = .freeFrame) = true
    rw [used]
    decide
  have size := pool.exhausted.mp none
  rw [Finset.card_erase_of_mem (mem_firstFrames.mpr (by decide)), card_firstFrames] at size
  exact absurd size (by decide)

end FramePool

end Zeos
