import Zeos.Types

/-!
# Physical frames and page tables

The paging half of `mm.c`: the map of physical frames, the page tables of the
ten directories, the directory use counts, and the contents of the frames, by
frame and offset.

`fault` records that the kernel touched a page that is not mapped, which ends
in an exception that ZeOS does not return from, or that it used an entry
outside the 1024 of the table it works on.  The latter goes unnoticed: the
tables are one array, and the entry is one of a neighbouring directory's.
-/

namespace Zeos

structure Memory where
  physMem : Nat → FrameState
  dirCounter : DirId → Int
  pagusrTable : DirId → Nat → PageTableEntry
  ram : Nat → Nat → UInt8
  fault : Bool

namespace Memory

/-! ## Frames -/

/-- The frames `alloc_frame` looks at, in order: `i` starts at
`NUM_PAG_KERNEL` and the loop adds two to it. -/
def frameScan : List Nat :=
  (List.range ((totalPages - numPagKernel) / 2)).map fun k => numPagKernel + 2 * k

/-- `alloc_frame`; `none` stands for the result -1. -/
def allocFrame (mm : Memory) : Option (Nat × Memory) :=
  match frameScan.find? (fun i => mm.physMem i = .freeFrame) with
  | none => none
  | some i =>
      some (i, { mm with physMem := Function.update mm.physMem i .usedFrame })

/-- `free_frame`. -/
def freeFrame (mm : Memory) (frame : Nat) : Memory :=
  if frame > numPagKernel ∧ frame < totalPages then
    { mm with physMem := Function.update mm.physMem frame .freeFrame }
  else
    mm

/-! ## Page tables -/

/-- Whether a page number is an index into a page table. -/
def InTable (page : Int) : Prop := 0 ≤ page ∧ page < totalPages

instance (page : Int) : Decidable (InTable page) := by
  unfold InTable
  infer_instance

/-- The place of `PT[page]` in `pagusr_table[NR_TASKS][TOTAL_PAGES]`, where `PT`
is the page table of `dir`; an index outside that table leads to a neighbour's,
or out of the array. -/
def entryPlace (dir : DirId) (page : Int) : Option (DirId × Nat) :=
  let place : Int := totalPages * (dir.val : Int) + page
  if bound : 0 ≤ place ∧ place < totalPages * nrTasks then
    some (⟨(place / totalPages).toNat, by simp only [totalPages, nrTasks] at *; omega⟩,
      (place % totalPages).toNat)
  else
    none

/-- A store to `PT[page]` outside the table of `dir`.  What lies around the array
of tables is not part of this state. -/
def strayEntry (mm : Memory) (dir : DirId) (page : Int)
    (entry : PageTableEntry) : Memory :=
  match entryPlace dir page with
  | some (d, p) =>
      { mm with
        pagusrTable := Function.update mm.pagusrTable d
          (Function.update (mm.pagusrTable d) p entry)
        fault := true }
  | none => { mm with fault := true }

/-- A store to `PT[page]`, where `PT` is the page table of `dir`. -/
def setEntry (mm : Memory) (dir : DirId) (page : Int)
    (entry : PageTableEntry) : Memory :=
  if InTable page then
    { mm with
      pagusrTable := Function.update mm.pagusrTable dir
        (Function.update (mm.pagusrTable dir) page.toNat entry) }
  else
    mm.strayEntry dir page entry

/-- A stray store is recorded, and changes a table at most. -/
theorem strayEntry_cases (mm : Memory) (dir : DirId) (page : Int)
    (entry : PageTableEntry) : ∃ tables,
      mm.strayEntry dir page entry = { mm with pagusrTable := tables, fault := true } := by
  unfold strayEntry
  split
  · exact ⟨_, rfl⟩
  · exact ⟨mm.pagusrTable, rfl⟩

/-- `set_ss_pag`. -/
def setSsPag (mm : Memory) (dir : DirId) (page : Int) (frame : Nat) : Memory :=
  mm.setEntry dir page
    { present := true, rw := true, user := true, pbaseAddr := frame }

/-- `del_ss_pag`. -/
def delSsPag (mm : Memory) (dir : DirId) (page : Int) : Memory :=
  mm.setEntry dir page {}

/-- `get_frame`, for a page in the table. -/
def getFrame (mm : Memory) (dir : DirId) (page : Nat) : Nat :=
  (mm.pagusrTable dir page).pbaseAddr

/-- `get_frame` through an index outside the table of `dir`. -/
def strayFrame (mm : Memory) (dir : DirId) (page : Int) : Nat :=
  match entryPlace dir page with
  | some (d, p) => mm.getFrame d p
  | none => 0

/-- `free_user_pages`: only the data pages. -/
def freeUserPages (mm : Memory) (dir : DirId) : Memory :=
  (List.range numPagData).foldl
    (fun mm pag =>
      (mm.freeFrame (mm.getFrame dir (pagLogInitData + pag))).setEntry dir
        (pagLogInitData + pag : Nat) {})
    mm

/-! ## Access through a page table -/

/-- The frame of a page, if the page is mapped. -/
def translate (mm : Memory) (dir : DirId) (page : Nat) : Option Nat :=
  if page < totalPages ∧ (mm.pagusrTable dir page).present then
    some (mm.getFrame dir page)
  else
    none

/-- `copy_data((void*)(from << 12), (void*)(to << 12), PAGE_SIZE)` while `dir`
is the current directory. -/
def copyPage (mm : Memory) (dir : DirId) (source target : Nat) : Memory :=
  match mm.translate dir source, mm.translate dir target with
  | some sourceFrame, some targetFrame =>
      { mm with ram := Function.update mm.ram targetFrame (mm.ram sourceFrame) }
  | _, _ => { mm with fault := true }

/-- A load of one byte. -/
def loadByte (mm : Memory) (dir : DirId) (address : UInt32) : Option UInt8 :=
  (mm.translate dir (address.toNat / pageSize)).map fun frame =>
    mm.ram frame (address.toNat % pageSize)

/-- A store of one byte. -/
def storeByte (mm : Memory) (dir : DirId) (address : UInt32)
    (value : UInt8) : Memory :=
  match mm.translate dir (address.toNat / pageSize) with
  | some frame =>
      { mm with
        ram := Function.update mm.ram frame
          (Function.update (mm.ram frame) (address.toNat % pageSize) value) }
  | none => { mm with fault := true }

/-- `copy_to_user`, byte by byte. -/
def copyToUser (dir : DirId) : List UInt8 → UInt32 → Memory → Memory
  | [], _, mm => mm
  | value :: values, dest, mm =>
      copyToUser dir values (dest + 1) (mm.storeByte dir dest value)

/-- Copying to user memory changes contents only. -/
theorem copyToUser_cases (dir : DirId) :
    ∀ (values : List UInt8) (dest : UInt32) (mm : Memory), ∃ ram fault,
      copyToUser dir values dest mm = { mm with ram := ram, fault := fault }
  | [], _, mm => ⟨mm.ram, mm.fault, rfl⟩
  | value :: values, dest, mm => by
      obtain ⟨ram, fault, rest⟩ :=
        copyToUser_cases dir values (dest + 1) (mm.storeByte dir dest value)
      refine ⟨ram, fault, ?_⟩
      rw [copyToUser, rest]
      unfold storeByte
      split <;> rfl

/-- `copy_from_user` of `size` bytes, byte by byte. -/
def copyFromUser (mm : Memory) (dir : DirId) :
    Nat → UInt32 → Option (List UInt8)
  | 0, _ => some []
  | size + 1, start => do
      let value ← mm.loadByte dir start
      let values ← copyFromUser mm dir size (start + 1)
      pure (value :: values)

/-! ## The loops of `sys_fork` -/

/-- The rollback of `sys_fork`: free and unmap the first `pg` data pages. -/
def releaseData (mm : Memory) (ptChild : DirId) (pg : Nat) : Memory :=
  (List.range pg).foldl
    (fun mm newPg =>
      (mm.freeFrame (mm.getFrame ptChild (pagLogInitData + newPg))).delSsPag
        ptChild (pagLogInitData + newPg : Nat))
    mm

/-- The reservation loop of `sys_fork`, with `count` rounds to go at `pg`; the
result tells whether all frames were found. -/
def reserveData (ptChild : DirId) : Nat → Nat → Memory → Bool × Memory
  | 0, _, mm => (true, mm)
  | count + 1, pg, mm =>
      match mm.allocFrame with
      | none => (false, mm.releaseData ptChild pg)
      | some (newPg, mm) =>
          reserveData ptChild count (pg + 1)
            (mm.setSsPag ptChild (pagLogInitData + pg : Nat) newPg)

/-- Map `count` pages from `first` on as the parent's table maps them. -/
def sharePages (mm : Memory) (ptChild ptParent : DirId)
    (first count : Nat) : Memory :=
  (List.range count).foldl
    (fun mm pg =>
      mm.setSsPag ptChild (first + pg : Nat) (mm.getFrame ptParent (first + pg)))
    mm

/-- One round of the copying loop: the child's frame is mapped into the
parent's table `distance` pages above the page it is a copy of, written
through that window, and unmapped. -/
def copyThroughWindow (cr3 ptChild ptParent : DirId) (distance : Nat)
    (mm : Memory) (pg : Nat) : Memory :=
  let mm := mm.setSsPag ptParent (pg + distance : Nat) (mm.getFrame ptChild pg)
  let mm := mm.copyPage cr3 pg (pg + distance)
  mm.delSsPag ptParent (pg + distance : Nat)

/-- The copying loop of `sys_fork` over `pages` data and heap pages. -/
def copyDataPages (mm : Memory) (cr3 ptChild ptParent : DirId)
    (pages : Nat) : Memory :=
  (List.range pages).foldl
    (fun mm k =>
      copyThroughWindow cr3 ptChild ptParent pages mm
        (numPagKernel + numPagCode + k))
    mm

/-! ## Boot -/

/-- The tables after `init_table_pages`: kernel pages map to themselves except
page 0 and the two pages around the task array, which starts at page
`taskPage`. -/
def initTablePages (taskPage page : Nat) : PageTableEntry :=
  if 1 ≤ page ∧ page < numPagKernel then
    { present := decide (page ≠ taskPage ∧ page ≠ taskPage + 11)
      rw := true
      pbaseAddr := page }
  else
    {}

/-- Memory after `init_mm`. -/
def initMm (taskPage : Nat) : Memory where
  physMem i := if i < numPagKernel then .usedFrame else .freeFrame
  dirCounter _ := 0
  pagusrTable _ := initTablePages taskPage
  ram _ _ := 0
  fault := false

/-- One round of the loops of `set_user_pages`.  There are always frames left
at boot, so -1 is never stored in an entry. -/
def setUserPage (dir : DirId) (first : Nat) (rw : Bool)
    (mm : Memory) (pag : Nat) : Memory :=
  match mm.allocFrame with
  | none => { mm with fault := true }
  | some (newPhPag, mm) =>
      mm.setEntry dir (first + pag : Nat)
        { present := true, rw := rw, user := true, pbaseAddr := newPhPag }

/-- `set_user_pages`: the code pages are not writable. -/
def setUserPages (mm : Memory) (dir : DirId) : Memory :=
  let mm := (List.range numPagCode).foldl
    (setUserPage dir pagLogInitCode false) mm
  (List.range numPagData).foldl (setUserPage dir pagLogInitData true) mm

end Memory

end Zeos
