import Zeos.Memory

/-!
# `sys_sbrk`

The break of a process: its PCB's heap fields, the heap pages of its table and
the frames behind them.
-/

namespace Zeos

/-- The number of rounds of `for (i = 0; i != n; ++i)` on a 32-bit `int`: a
negative `n` is reached only after the counter has wrapped around. -/
def rounds (n : Int) : Nat := (n % 2 ^ 32).toNat

/-- The loop that gives pages back, in the shrinking branch and in the rollback
of the growing one.  A round frees the frame of the last heap page and clears
the entry of the page after it.  The loop has no bound but its count: below
page 0 it goes on in the table of the directory before. -/
def releasePages : Nat → TaskStruct → Memory → TaskStruct × Memory
  | 0, t, mm => (t, mm)
  | count + 1, t, mm =>
      let last : Int := heapInitPage + t.heapPages - 1
      if Memory.InTable last ∧ Memory.InTable (last + 1) then
        releasePages count { t with heapPages := t.heapPages - 1 }
          ((mm.freeFrame (mm.getFrame t.dirPagesBaseAddr last.toNat)).delSsPag
            t.dirPagesBaseAddr (last + 1))
      else if (Memory.entryPlace t.dirPagesBaseAddr last).isSome then
        releasePages count { t with heapPages := t.heapPages - 1 }
          { (mm.freeFrame (mm.strayFrame t.dirPagesBaseAddr last)).delSsPag
              t.dirPagesBaseAddr (last + 1) with
            fault := true }
      else
        -- around the array of tables lies what is not part of this state
        (t, { mm with fault := true })

/-- The reservation loop of the growing branch, with `count` rounds to go and
`i` pages reserved so far.  Nothing stops it at the end of the table. -/
def growHeap : Nat → Nat → TaskStruct → Memory → Bool × TaskStruct × Memory
  | 0, _, t, mm => (true, t, mm)
  | count + 1, i, t, mm =>
      match mm.allocFrame with
      | none => (false, releasePages i t mm)
      | some (f, mm) =>
          growHeap count (i + 1) { t with heapPages := t.heapPages + 1 }
            (mm.setSsPag t.dirPagesBaseAddr (heapInitPage + t.heapPages : Int) f)

/-- `sys_sbrk` once the heap exists. -/
def moveBreak (increment : Int) (t : TaskStruct) (mm : Memory) :
    Int × TaskStruct × Memory :=
  let heapAddr := int32 (heapStart + t.heapSize)
  if increment = 0 then
    (heapAddr, t, mm)
  else if increment > 0 then
    let grown := { t with heapSize := int32 (t.heapSize + increment) }
    if int32 (t.heapSize.tmod pageSize + increment) < pageSize then
      (heapAddr, grown, mm)
    else
      let n := int32 (grown.heapSize.tdiv pageSize - grown.heapPages)
      match growHeap (rounds n) 0 grown mm with
      | (true, t, mm) => (heapAddr, t, mm)
      | (false, t, mm) =>
          (-enomem, { t with heapSize := int32 (t.heapSize - increment) }, mm)
  else
    let newSize :=
      if int32 (t.heapSize + increment) ≤ 0 then 0
      else int32 (t.heapSize + increment)
    let n := int32 (t.heapPages - (newSize.tdiv pageSize + 1))
    let (t, mm) := releasePages (rounds n) { t with heapSize := newSize } mm
    (int32 (heapStart + t.heapSize), t, mm)

/-- `sys_sbrk`, called by the process with PCB `t`. -/
def sysSbrk (increment : Int32) (t : TaskStruct) (mm : Memory) :
    Int × TaskStruct × Memory :=
  if t.heap = 0 then
    if increment.toInt < 0 then
      (-enomem, t, mm)
    else
      match mm.allocFrame with
      | none => (-enomem, t, mm)
      | some (f, mm) =>
          moveBreak increment.toInt
            { t with heap := heapStart, heapPages := 1 }
            (mm.setSsPag t.dirPagesBaseAddr heapInitPage f)
  else
    moveBreak increment.toInt t mm

/-! ## Stray entries -/

/-- What was recorded stays recorded. -/
theorem releasePages_stray : ∀ (count : Nat) (t : TaskStruct) (mm : Memory),
    mm.fault = true → (releasePages count t mm).2.fault = true
  | 0, _, _, stray => stray
  | count + 1, t, mm, stray => by
      unfold releasePages
      dsimp only
      split_ifs with inTable place
      · apply releasePages_stray count
        unfold Memory.delSsPag Memory.setEntry Memory.freeFrame
        rw [if_pos inTable.2]
        split_ifs <;> exact stray
      · exact releasePages_stray count _ _ rfl
      · rfl

theorem growHeap_stray : ∀ (count i : Nat) (t : TaskStruct) (mm : Memory),
    mm.fault = true → (growHeap count i t mm).2.2.fault = true
  | 0, _, _, _, stray => stray
  | count + 1, i, t, mm, stray => by
      unfold growHeap
      split
      · exact releasePages_stray i t mm stray
      · next f mm₁ found =>
          apply growHeap_stray count
          have kept : mm₁.fault = true := by
            unfold Memory.allocFrame at found
            split at found
            · cases found
            · cases found
              exact stray
          unfold Memory.setSsPag Memory.setEntry
          split_ifs
          · exact kept
          · obtain ⟨tables, shape⟩ := mm₁.strayEntry_cases t.dirPagesBaseAddr
              (heapInitPage + t.heapPages : Int) ⟨true, true, true, f⟩
            rw [shape]

/-! ## What `sys_sbrk` writes in the PCB -/

/-- Only the heap fields of the PCB differ. -/
structure HeapOnly (t t' : TaskStruct) : Prop where
  pid : t'.pid = t.pid
  dirPagesBaseAddr : t'.dirPagesBaseAddr = t.dirPagesBaseAddr
  execStatus : t'.execStatus = t.execStatus
  quantum : t'.quantum = t.quantum

namespace HeapOnly

variable {t t' t'' : TaskStruct}

theorem refl (t : TaskStruct) : HeapOnly t t := ⟨rfl, rfl, rfl, rfl⟩

theorem trans (first : HeapOnly t t') (second : HeapOnly t' t'') :
    HeapOnly t t'' where
  pid := second.pid.trans first.pid
  dirPagesBaseAddr := second.dirPagesBaseAddr.trans first.dirPagesBaseAddr
  execStatus := second.execStatus.trans first.execStatus
  quantum := second.quantum.trans first.quantum

theorem fields (t : TaskStruct) (heap heapSize heapPages : Int) :
    HeapOnly t
      { t with heap := heap, heapSize := heapSize, heapPages := heapPages } :=
  ⟨rfl, rfl, rfl, rfl⟩

theorem releasePages : ∀ (count : Nat) (t : TaskStruct) (mm : Memory),
    HeapOnly t (Zeos.releasePages count t mm).1
  | 0, t, mm => refl t
  | count + 1, t, mm => by
      unfold Zeos.releasePages
      dsimp only
      split_ifs
      · exact (fields t _ _ _).trans (releasePages count _ _)
      · exact (fields t _ _ _).trans (releasePages count _ _)
      · exact refl t

theorem growHeap : ∀ (count i : Nat) (t : TaskStruct) (mm : Memory),
    HeapOnly t (Zeos.growHeap count i t mm).2.1
  | 0, i, t, mm => refl t
  | count + 1, i, t, mm => by
      unfold Zeos.growHeap
      split
      · exact releasePages i t mm
      · exact (fields t _ _ _).trans (growHeap count (i + 1) _ _)

theorem moveBreak (increment : Int) (t : TaskStruct) (mm : Memory) :
    HeapOnly t (Zeos.moveBreak increment t mm).2.1 := by
  unfold Zeos.moveBreak
  dsimp only
  split_ifs
  · exact refl t
  · exact ⟨rfl, rfl, rfl, rfl⟩
  · have grown := growHeap
      (rounds (int32 ((int32 (t.heapSize + increment)).tdiv pageSize -
        t.heapPages))) 0 { t with heapSize := int32 (t.heapSize + increment) } mm
    split
    · next t' mm' result =>
        rw [result] at grown
        exact (fields t _ _ _).trans grown
    · next t' mm' result =>
        rw [result] at grown
        exact ((fields t _ _ _).trans grown).trans (fields t' _ _ _)
  · exact (fields t _ _ _).trans (releasePages _ _ _)
  · exact (fields t _ _ _).trans (releasePages _ _ _)

theorem sysSbrk (increment : Int32) (t : TaskStruct) (mm : Memory) :
    HeapOnly t (Zeos.sysSbrk increment t mm).2.1 := by
  unfold Zeos.sysSbrk
  split_ifs
  · exact refl t
  · split
    · exact refl t
    · exact (fields t _ _ _).trans (moveBreak _ _ _)
  · exact moveBreak _ _ _

end HeapOnly

end Zeos
