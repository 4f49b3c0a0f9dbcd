import Zeos.Library.Holdings
import Zeos.Memory

/-!
# Frames and tables as holdings

The data and heap pages of the ten tables are places, and the physical frames
are the resources they hold.  `Edit` says which entries of one table an
operation may change; every operation of `mm.c` is an edit, and acquires,
vacates or surrenders places.

The kernel does not come back from an access outside a table, so the lemmas
speak about operations that end without a fault.
-/

namespace Zeos

namespace Memory

variable {mm mm' mm₁ mm₂ : Memory} {dir : DirId} {first count frame page : Nat}
  {touched touched' : Nat → Prop}

/-- What the data and heap pages of all tables map, and the frames in use. -/
def holdings (mm : Memory) : Library.Holdings (DirId × Nat) Nat where
  held place :=
    if pagLogInitData ≤ place.2 ∧
        (mm.pagusrTable place.1 place.2).present = true then
      some (mm.getFrame place.1 place.2)
    else
      none
  used frame := mm.physMem frame = .usedFrame

/-- The frames that `alloc_frame` can still give out. -/
def freeFrames (mm : Memory) : Nat :=
  frameScan.countP fun i => mm.physMem i = .freeFrame

/-- Every data and heap page maps a frame that `free_frame` accepts, or its
entry is zero. -/
structure Tidy (mm : Memory) : Prop where
  firstUsed : mm.physMem numPagKernel = .usedFrame
  present : ∀ dir page, pagLogInitData ≤ page →
    (mm.pagusrTable dir page).present = true →
      numPagKernel < mm.getFrame dir page ∧ mm.getFrame dir page < totalPages
  absent : ∀ dir page, pagLogInitData ≤ page →
    (mm.pagusrTable dir page).present = false → mm.getFrame dir page = 0

/-- Only the touched entries of one table differ. -/
structure Edit (dir : DirId) (touched : Nat → Prop) (mm mm' : Memory) : Prop where
  tidy : mm.Tidy → mm'.Tidy
  dirCounter : mm'.dirCounter = mm.dirCounter
  table : ∀ d page, (d = dir → ¬ touched page) →
    mm'.pagusrTable d page = mm.pagusrTable d page

namespace Edit

theorem refl (dir : DirId) (touched : Nat → Prop) (mm : Memory) :
    Edit dir touched mm mm :=
  ⟨id, rfl, fun _ _ _ => rfl⟩

theorem trans (earlier : Edit dir touched mm mm₁)
    (later : Edit dir touched mm₁ mm₂) : Edit dir touched mm mm₂ where
  tidy tidy := later.tidy (earlier.tidy tidy)
  dirCounter := later.dirCounter.trans earlier.dirCounter
  table d page untouched :=
    (later.table d page untouched).trans (earlier.table d page untouched)

theorem mono (edit : Edit dir touched mm mm')
    (implies : ∀ page, touched page → touched' page) :
    Edit dir touched' mm mm' where
  tidy := edit.tidy
  dirCounter := edit.dirCounter
  table d page untouched :=
    edit.table d page fun same isTouched => untouched same (implies page isTouched)

end Edit

/-- The entries and the frame map do not differ. -/
theorem Edit.of_eq (tables : mm'.pagusrTable = mm.pagusrTable)
    (frames : mm'.physMem = mm.physMem) (uses : mm'.dirCounter = mm.dirCounter) :
    Edit dir touched mm mm' where
  tidy tidy := by
    refine ⟨?_, ?_, ?_⟩
    · rw [frames]
      exact tidy.firstUsed
    · unfold getFrame
      rw [tables]
      exact tidy.present
    · unfold getFrame
      rw [tables]
      exact tidy.absent
  dirCounter := uses
  table d page _ := by rw [tables]

theorem holdings_congr (tables : mm'.pagusrTable = mm.pagusrTable)
    (frames : mm'.physMem = mm.physMem) : mm'.holdings = mm.holdings := by
  unfold holdings getFrame
  rw [tables, frames]

/-! ## `alloc_frame` and `free_frame` -/

theorem mem_frameScan (member : frame ∈ frameScan) :
    numPagKernel ≤ frame ∧ frame < totalPages := by
  obtain ⟨k, inRange, rfl⟩ := List.mem_map.mp member
  have bound := List.mem_range.mp inRange
  simp only [totalPages, numPagKernel] at bound ⊢
  omega

theorem frameScan_nodup : frameScan.Nodup := by
  apply List.Nodup.map
  · intro i j same
    simp only [numPagKernel] at same
    omega
  · exact List.nodup_range

/-- Counting after one counted element was taken out. -/
theorem countP_remove {tested kept : Nat → Bool} {items : List Nat} {item : Nat}
    (nodup : items.Nodup) (member : item ∈ items) (counted : tested item = true)
    (removed : kept item = false)
    (others : ∀ other, other ≠ item → kept other = tested other) :
    items.countP tested = items.countP kept + 1 := by
  have rest : (items.erase item).countP kept =
      (items.erase item).countP tested := by
    apply List.countP_congr
    intro other inRest
    have different : other ≠ item := fun same =>
      nodup.not_mem_erase (same ▸ inRest)
    rw [others other different]
  have split := List.perm_cons_erase member
  rw [split.countP_eq, split.countP_eq, List.countP_cons_of_pos counted,
    List.countP_cons_of_neg (by simp [removed]), rest]

theorem allocFrame_none_iff : mm.allocFrame = none ↔ mm.freeFrames = 0 := by
  unfold allocFrame freeFrames
  rw [List.countP_eq_zero]
  split
  · next absent =>
      rw [List.find?_eq_none] at absent
      simpa using absent
  · next frame found =>
      have member := List.mem_of_find?_eq_some found
      have free := List.find?_some found
      apply iff_of_false
      · simp
      · intro none
        exact none frame member free

/-- A frame that is found was free. -/
theorem allocFrame_some (found : mm.allocFrame = some (frame, mm₁)) :
    numPagKernel ≤ frame ∧ frame < totalPages ∧
      mm.physMem frame = .freeFrame ∧
      mm₁ = { mm with
        physMem := Function.update mm.physMem frame .usedFrame } ∧
      mm.freeFrames = mm₁.freeFrames + 1 := by
  unfold allocFrame at found
  split at found
  · cases found
  · next i isFirst =>
      cases found
      have member := List.mem_of_find?_eq_some isFirst
      have free : mm.physMem frame = .freeFrame := by
        simpa using List.find?_some isFirst
      have range := mem_frameScan member
      refine ⟨range.1, range.2, free, rfl, ?_⟩
      apply countP_remove frameScan_nodup member
      · simpa using free
      · simp
      · intro other different
        simp [different]

theorem freeFrame_table (mm : Memory) (frame : Nat) :
    (mm.freeFrame frame).pagusrTable = mm.pagusrTable ∧
      (mm.freeFrame frame).dirCounter = mm.dirCounter ∧
      (mm.freeFrame frame).fault = mm.fault := by
  unfold freeFrame
  split_ifs <;> exact ⟨rfl, rfl, rfl⟩

theorem freeFrame_used (frame f : Nat) :
    (mm.freeFrame frame).physMem f = .usedFrame ↔
      mm.physMem f = .usedFrame ∧
        ¬ (f = frame ∧ numPagKernel < frame ∧ frame < totalPages) := by
  unfold freeFrame
  split_ifs with accepted
  · by_cases same : f = frame
    · subst same
      have accepted' := accepted
      simp only [numPagKernel, totalPages] at accepted'
      simp [accepted'.1, accepted'.2]
    · simp [same]
  · constructor
    · intro used
      exact ⟨used, fun freed => accepted freed.2⟩
    · exact fun both => both.1

/-- At most one more frame is free. -/
theorem freeFrame_freeFrames (mm : Memory) (frame : Nat) :
    (mm.freeFrame frame).freeFrames ≤ mm.freeFrames + 1 := by
  unfold freeFrame
  split_ifs
  · have others : ∀ other, other ≠ frame →
        Function.update mm.physMem frame .freeFrame other = mm.physMem other :=
      fun other different => Function.update_of_ne different _ _
    unfold freeFrames
    by_cases used : mm.physMem frame = .usedFrame
    · by_cases member : frame ∈ frameScan
      · refine (countP_remove frameScan_nodup member ?_ ?_ ?_).le
        · simp
        · simp [used]
        · intro other different
          simp [others other different]
      · refine le_trans (le_of_eq (List.countP_congr ?_)) (Nat.le_succ _)
        intro other inScan
        have different : other ≠ frame := fun same => member (same ▸ inScan)
        simp [others other different]
    · have free : mm.physMem frame = .freeFrame := by
        cases state : mm.physMem frame with
        | freeFrame => rfl
        | usedFrame => exact absurd state used
      rw [← free, Function.update_eq_self]
      exact Nat.le_succ _
  · exact Nat.le_succ _

theorem freeFrame_edit (dir : DirId) (touched : Nat → Prop) (mm : Memory)
    (frame : Nat) :
    Edit dir touched mm (mm.freeFrame frame) := by
  obtain ⟨tables, uses, _⟩ := freeFrame_table mm frame
  refine ⟨fun tidy => ⟨?_, ?_, ?_⟩, uses, fun d page _ => by rw [tables]⟩
  · rw [freeFrame_used]
    refine ⟨tidy.firstUsed, fun freed => ?_⟩
    omega
  · unfold getFrame
    rw [tables]
    exact tidy.present
  · unfold getFrame
    rw [tables]
    exact tidy.absent

/-! ## `set_ss_pag` and `del_ss_pag` -/

section Entries

variable {index : Int} {entry : PageTableEntry}

theorem setEntry_frames (dir : DirId) (index : Int) (entry : PageTableEntry) :
    (mm.setEntry dir index entry).physMem = mm.physMem ∧
      (mm.setEntry dir index entry).dirCounter = mm.dirCounter := by
  unfold setEntry
  split_ifs
  · exact ⟨rfl, rfl⟩
  · obtain ⟨tables, stray⟩ := mm.strayEntry_cases dir index entry
    rw [stray]
    exact ⟨rfl, rfl⟩

theorem setEntry_ram (dir : DirId) (index : Int) (entry : PageTableEntry) :
    (mm.setEntry dir index entry).ram = mm.ram := by
  unfold setEntry
  split_ifs
  · rfl
  · obtain ⟨tables, stray⟩ := mm.strayEntry_cases dir index entry
    rw [stray]

/-- A store that ends without a fault was inside the table. -/
theorem setEntry_noFault (noFault : (mm.setEntry dir index entry).fault = false) :
    InTable index ∧ mm.fault = false := by
  unfold setEntry at noFault
  split_ifs at noFault with inTable
  · exact ⟨inTable, noFault⟩
  · obtain ⟨tables, stray⟩ := mm.strayEntry_cases dir index entry
    rw [stray] at noFault
    cases noFault

theorem delSsPag_noFault (noFault : (mm.delSsPag dir index).fault = false) :
    InTable index ∧ mm.fault = false :=
  setEntry_noFault noFault

theorem setSsPag_noFault
    (noFault : (mm.setSsPag dir index frame).fault = false) :
    InTable index ∧ mm.fault = false :=
  setEntry_noFault noFault

/-- A store outside the table is recorded. -/
theorem setSsPag_stray (outside : ¬ InTable index) :
    (mm.setSsPag dir index frame).fault = true := by
  cases fault : (mm.setSsPag dir index frame).fault with
  | true => rfl
  | false => exact absurd (setSsPag_noFault fault).1 outside

theorem setEntry_table (inTable : InTable index) (d : DirId) (p : Nat) :
    (mm.setEntry dir index entry).pagusrTable d p =
      if d = dir ∧ (p : Int) = index then entry else mm.pagusrTable d p := by
  have position : (p : Int) = index ↔ p = index.toNat := by
    have bound := inTable.1
    omega
  unfold setEntry
  rw [if_pos inTable]
  simp only [position]
  by_cases sameDir : d = dir
  · subst sameDir
    by_cases samePage : p = index.toNat
    · simp [samePage]
    · simp [samePage]
  · simp [sameDir]

/-- The entries that `set_ss_pag` and `del_ss_pag` write in a tidy table. -/
def TidyEntry (entry : PageTableEntry) : Prop :=
  (entry.present = true →
    numPagKernel < entry.pbaseAddr ∧ entry.pbaseAddr < totalPages) ∧
  (entry.present = false → entry.pbaseAddr = 0)

theorem setEntry_edit (inTable : InTable index)
    (written : pagLogInitData ≤ index → TidyEntry entry) :
    Edit dir (fun p => (p : Int) = index) mm (mm.setEntry dir index entry) := by
  refine ⟨fun tidy => ⟨?_, ?_, ?_⟩, (setEntry_frames dir index entry).2, ?_⟩
  · rw [(setEntry_frames dir index entry).1]
    exact tidy.firstUsed
  · intro d p high
    unfold getFrame
    rw [setEntry_table inTable]
    split_ifs with same
    · exact (written (by omega)).1
    · exact tidy.present d p high
  · intro d p high
    unfold getFrame
    rw [setEntry_table inTable]
    split_ifs with same
    · exact (written (by omega)).2
    · exact tidy.absent d p high
  · intro d p untouched
    rw [setEntry_table inTable, if_neg fun same => untouched same.1 same.2]

theorem delSsPag_edit (inTable : InTable index) :
    Edit dir (fun p => (p : Int) = index) mm (mm.delSsPag dir index) := by
  apply setEntry_edit inTable
  intro _
  constructor
  · intro present
    cases present
  · exact fun _ => rfl

/-- Entries below the data pages hold nothing. -/
theorem setEntry_holdings_low (inTable : InTable index) (low : index < pagLogInitData) :
    (mm.setEntry dir index entry).holdings = mm.holdings := by
  have tables : ∀ d p, pagLogInitData ≤ p →
      (mm.setEntry dir index entry).pagusrTable d p = mm.pagusrTable d p := by
    intro d p high
    rw [setEntry_table inTable, if_neg]
    omega
  unfold holdings getFrame
  rw [(setEntry_frames dir index entry).1]
  congr 1
  funext place
  by_cases high : pagLogInitData ≤ place.2
  · rw [tables place.1 place.2 high]
  · rw [if_neg fun both => high both.1, if_neg fun both => high both.1]

theorem setSsPag_holdings (inTable : InTable page) (high : pagLogInitData ≤ page) :
    (mm.setSsPag dir page frame).holdings =
      { mm.holdings with
        held := Function.update mm.holdings.held (dir, page) (some frame) } := by
  unfold holdings getFrame setSsPag
  rw [(setEntry_frames dir _ _).1]
  congr 1
  funext place
  obtain ⟨d, p⟩ := place
  rw [setEntry_table inTable]
  by_cases same : d = dir ∧ p = page
  · obtain ⟨rfl, rfl⟩ := same
    simpa using high
  · have different : (d, p) ≠ (dir, page) := by simpa using same
    have elsewhere : ¬ (d = dir ∧ (p : Int) = page) := by
      simpa using same
    rw [Function.update_of_ne different, if_neg elsewhere]

theorem delSsPag_holdings (inTable : InTable page) :
    (mm.delSsPag dir page).holdings = mm.holdings.vacate (dir, page) := by
  unfold holdings getFrame delSsPag Library.Holdings.vacate
  rw [(setEntry_frames dir _ _).1]
  congr 1
  funext place
  obtain ⟨d, p⟩ := place
  rw [setEntry_table inTable]
  by_cases same : d = dir ∧ p = page
  · obtain ⟨rfl, rfl⟩ := same
    simp
  · have different : (d, p) ≠ (dir, page) := by simpa using same
    have elsewhere : ¬ (d = dir ∧ (p : Int) = page) := by
      simpa using same
    rw [Function.update_of_ne different, if_neg elsewhere]

end Entries

end Memory

end Zeos
