import Zeos.Space.Running

/-!
# The memory of a forked child

Entry by entry what a successful `sys_fork` leaves in the tables, and byte by
byte what it leaves in the frames: the child's data pages map the frames that
`alloc_frame` gives out, and each of these holds what the parent's frame held.
-/

namespace Zeos

namespace Memory

variable {mm mm' mm₁ : Memory} {dir ptChild ptParent : DirId}
  {first count frame page pages : Nat}

/-! ## The frames that a run of pages gets -/

/-- The free frames, in the order in which `alloc_frame` gives them out. -/
def freeList (mm : Memory) : List Nat :=
  frameScan.filter fun i => mm.physMem i = .freeFrame

theorem length_freeList (mm : Memory) : mm.freeList.length = mm.freeFrames :=
  List.countP_eq_length_filter.symm

theorem mem_freeList : frame ∈ mm.freeList ↔
    frame ∈ frameScan ∧ mm.physMem frame = .freeFrame := by
  simp [freeList, List.mem_filter]

theorem freeList_nodup (mm : Memory) : mm.freeList.Nodup :=
  frameScan_nodup.filter _

/-- The frame that is found comes first, and the others stay free. -/
theorem allocFrame_freeList (found : mm.allocFrame = some (frame, mm₁)) :
    mm.freeList = frame :: mm₁.freeList := by
  unfold allocFrame at found
  split at found
  · cases found
  · next i isFirst =>
      cases found
      have head : mm.freeList.head? = some frame := by
        rw [freeList, List.head?_filter]
        exact isFirst
      obtain ⟨rest, shape⟩ := List.head?_eq_some_iff.mp head
      rw [shape]
      congr 1
      have nodup := mm.freeList_nodup
      rw [shape, List.nodup_cons] at nodup
      have others : rest = mm.freeList.filter (· ≠ frame) := by
        rw [shape, List.filter_cons_of_neg (by simp)]
        symm
        rw [List.filter_eq_self]
        intro other member
        have different : other ≠ frame := fun same => nodup.1 (same ▸ member)
        simpa using different
      rw [others, freeList, freeList, List.filter_filter]
      apply List.filter_congr
      intro other _
      by_cases same : other = frame
      · simp [same]
      · simp [same]

namespace Maps

theorem ram (maps : Maps dir first count mm mm') : mm'.ram = mm.ram := by
  induction maps with
  | done => rfl
  | next inTable found _ inductionHypothesis =>
      obtain ⟨_, _, _, rfl, _⟩ := allocFrame_some found
      rw [inductionHypothesis]
      exact setEntry_ram _ _ _

/-- Each page of the run maps its frame of the list. -/
theorem entry (maps : Maps dir first count mm mm') (range : Range first count page) :
    ∃ frame, mm.freeList[page - first]? = some frame ∧
      mm'.pagusrTable dir page = pageEntry frame := by
  induction maps with
  | done => omega
  | @next first count frame mm mm₁ mm₂ inTable found rest inductionHypothesis =>
      have given := allocFrame_freeList found
      by_cases isFirst : page = first
      · have own := Maps.firstEntry (.next inTable found rest)
        rw [found] at own
        refine ⟨frame, ?_, ?_⟩
        · rw [given, isFirst, Nat.sub_self]
          rfl
        · rw [isFirst]
          exact (Option.some.inj own).symm
      · obtain ⟨other, listed, mapped⟩ := inductionHypothesis (by omega)
        refine ⟨other, ?_, mapped⟩
        have later : page - first = page - (first + 1) + 1 := by omega
        rw [given, later, List.getElem?_cons_succ, ← listed]
        unfold freeList setSsPag
        rw [(setEntry_frames dir _ _).1]

end Maps

/-! ## Sharing -/

theorem setSsPag_eq (mm : Memory) (dir : DirId) (frame : Nat)
    (inTable : page < totalPages) :
    mm.setSsPag dir page frame = { mm with
      pagusrTable := Function.update mm.pagusrTable dir
        (Function.update (mm.pagusrTable dir) page (pageEntry frame)) } := by
  unfold setSsPag setEntry
  rw [if_pos ⟨by omega, by omega⟩]
  rfl

theorem setSsPag_table (mm : Memory) (dir : DirId) (frame : Nat)
    (inTable : page < totalPages) (d : DirId) (p : Nat) :
    (mm.setSsPag dir page frame).pagusrTable d p =
      if d = dir ∧ p = page then pageEntry frame else mm.pagusrTable d p := by
  have indexed : InTable page := ⟨by omega, by omega⟩
  unfold setSsPag
  rw [setEntry_table indexed]
  simp only [Int.ofNat_inj]
  rfl

theorem setSsPag_translate (mm : Memory) (dir : DirId) (frame : Nat)
    (inTable : page < totalPages) :
    (mm.setSsPag dir page frame).translate dir page = some frame := by
  unfold translate getFrame
  have entry : (mm.setSsPag dir page frame).pagusrTable dir page =
      pageEntry frame := by
    rw [setSsPag_table _ _ _ inTable, if_pos ⟨rfl, rfl⟩]
  rw [entry]
  exact if_pos ⟨inTable, rfl⟩

theorem setSsPag_translate_other {other : Nat} (inTable : page < totalPages)
    (below : other < totalPages) (different : other ≠ page)
    (present : (mm.pagusrTable dir other).present = true) :
    (mm.setSsPag dir page frame).translate dir other =
      some (mm.getFrame dir other) := by
  have entry : (mm.setSsPag dir page frame).pagusrTable dir other =
      mm.pagusrTable dir other := by
    rw [setSsPag_table _ _ _ inTable, if_neg fun both => different both.2]
  unfold translate getFrame
  rw [entry, if_pos ⟨below, present⟩]

/-- The shared pages map the parent's frames, and nothing else changes. -/
theorem sharePages_table (mm : Memory) (ptChild ptParent : DirId)
    (first count : Nat) (inTable : first + count ≤ totalPages) :
    let shared := mm.sharePages ptChild ptParent first count
    (∀ d p, shared.pagusrTable d p =
      if d = ptChild ∧ Maps.Range first count p then
        pageEntry (mm.getFrame ptParent p)
      else mm.pagusrTable d p) ∧
    shared.ram = mm.ram ∧ shared.physMem = mm.physMem ∧
    shared.dirCounter = mm.dirCounter ∧ shared.fault = mm.fault := by
  induction count with
  | zero =>
      refine ⟨fun d p => ?_, rfl, rfl, rfl, rfl⟩
      rw [if_neg (by omega)]
      rfl
  | succ count inductionHypothesis =>
      obtain ⟨tables, ram, frames, uses, fault⟩ :=
        inductionHypothesis (by omega)
      have last : mm.sharePages ptChild ptParent first (count + 1) =
          (mm.sharePages ptChild ptParent first count).setSsPag ptChild
            (first + count : Nat)
            ((mm.sharePages ptChild ptParent first count).getFrame ptParent
              (first + count)) := by
        unfold sharePages
        rw [List.range_succ, List.foldl_append, List.foldl_cons, List.foldl_nil]
      have source : (mm.sharePages ptChild ptParent first count).getFrame
          ptParent (first + count) = mm.getFrame ptParent (first + count) := by
        unfold getFrame
        rw [tables, if_neg (by omega)]
      rw [last, source]
      refine ⟨fun d p => ?_, ?_, ?_, ?_, ?_⟩
      · rw [setSsPag_table _ _ _ (by omega), tables]
        by_cases own : d = ptChild
        · by_cases isLast : p = first + count
          · rw [if_pos ⟨own, isLast⟩, if_pos ⟨own, by omega⟩, isLast]
          · rw [if_neg fun both => isLast both.2]
            apply if_congr _ rfl rfl
            apply and_congr_right
            intro _
            omega
        · rw [if_neg fun both => own both.1, if_neg fun both => own both.1,
            if_neg fun both => own both.1]
      all_goals
        rw [setSsPag_eq _ _ _ (by omega)]
      · exact ram
      · exact frames
      · exact uses
      · exact fault

/-! ## Copying -/

/-- One round of the copying loop, when the parent's directory is the current
one and the page is mapped. -/
theorem copyThroughWindow_eq (mm : Memory) {distance pg : Nat}
    (inTable : pg + distance < totalPages) (apart : 0 < distance)
    (present : (mm.pagusrTable ptParent pg).present = true) :
    copyThroughWindow ptParent ptChild ptParent distance mm pg = { mm with
      pagusrTable := Function.update mm.pagusrTable ptParent
        (Function.update (mm.pagusrTable ptParent) (pg + distance) {})
      ram := Function.update mm.ram (mm.getFrame ptChild pg)
        (mm.ram (mm.getFrame ptParent pg)) } := by
  have indexed : InTable (pg + distance : Nat) := ⟨by omega, by omega⟩
  have opened := mm.setSsPag_eq ptParent (mm.getFrame ptChild pg) inTable
  have source : (mm.setSsPag ptParent (pg + distance : Nat)
      (mm.getFrame ptChild pg)).translate ptParent pg =
        some (mm.getFrame ptParent pg) :=
    setSsPag_translate_other inTable (by omega) (by omega) present
  have target := mm.setSsPag_translate ptParent (mm.getFrame ptChild pg) inTable
  unfold copyThroughWindow
  dsimp only
  unfold copyPage
  rw [source, target]
  dsimp only
  rw [opened]
  unfold delSsPag setEntry
  rw [if_pos indexed]
  simp only [Function.update_self, Function.update_idem, Int.toNat_natCast]

/-- A round that ends without a fault copied a mapped page. -/
theorem copyThroughWindow_source {distance pg : Nat} (apart : 0 < distance)
    (noFault : (copyThroughWindow ptParent ptChild ptParent distance mm pg).fault =
      false) :
    pg + distance < totalPages ∧
      (mm.pagusrTable ptParent pg).present = true := by
  unfold copyThroughWindow at noFault
  obtain ⟨indexed, copied⟩ := delSsPag_noFault noFault
  have inTable : pg + distance < totalPages := Int.ofNat_lt.mp indexed.2
  refine ⟨inTable, ?_⟩
  unfold copyPage at copied
  split at copied
  · next frame _ read _ =>
      unfold translate at read
      split_ifs at read with mapped
      rw [setSsPag_table _ _ _ inTable, if_neg (by omega)] at mapped
      exact mapped.2
  · cases copied

/-- The pages of the window that the first `done` rounds used are unmapped. -/
def windowClosed (mm : Memory) (ptParent : DirId) (pages done : Nat)
    (d : DirId) (p : Nat) : PageTableEntry :=
  if d = ptParent ∧ Maps.Range (pagLogInitData + pages) done p then {}
  else mm.pagusrTable d p

/-- The first `done` rounds of the copying loop. -/
def copyRounds (mm : Memory) (ptChild ptParent : DirId) (pages done : Nat) :
    Memory :=
  (List.range done).foldl
    (fun mm k => copyThroughWindow ptParent ptChild ptParent pages mm
      (pagLogInitData + k)) mm

theorem copyDataPages_eq (mm : Memory) (ptChild ptParent : DirId)
    (pages : Nat) : mm.copyDataPages ptParent ptChild ptParent pages =
      mm.copyRounds ptChild ptParent pages pages := rfl

theorem copyRounds_succ (mm : Memory) (ptChild ptParent : DirId)
    (pages done : Nat) : mm.copyRounds ptChild ptParent pages (done + 1) =
      copyThroughWindow ptParent ptChild ptParent pages
        (mm.copyRounds ptChild ptParent pages done) (pagLogInitData + done) := by
  unfold copyRounds
  rw [List.range_succ, List.foldl_append, List.foldl_cons, List.foldl_nil]

/-- What the rounds that are over have done. -/
structure Copied (mm : Memory) (ptChild ptParent : DirId) (pages done : Nat)
    (mm' : Memory) : Prop where
  table : ∀ d p, mm'.pagusrTable d p = mm.windowClosed ptParent pages done d p
  frames : mm'.physMem = mm.physMem
  uses : mm'.dirCounter = mm.dirCounter
  fault : mm'.fault = mm.fault
  spared : ∀ f, (∀ p, Maps.Range pagLogInitData done p →
      mm.getFrame ptChild p ≠ f) → mm'.ram f = mm.ram f
  copies : (∀ p q, Maps.Range pagLogInitData pages p →
      Maps.Range pagLogInitData pages q →
      mm.getFrame ptChild p ≠ mm.getFrame ptParent q ∧
        (mm.getFrame ptChild p = mm.getFrame ptChild q → p = q)) →
    ∀ p, Maps.Range pagLogInitData done p →
      mm'.ram (mm.getFrame ptChild p) = mm.ram (mm.getFrame ptParent p)

theorem Copied.none (mm : Memory) (ptChild ptParent : DirId) (pages : Nat) :
    Copied mm ptChild ptParent pages 0 mm where
  table d p := by
    rw [windowClosed, if_neg (by omega)]
  frames := rfl
  uses := rfl
  fault := rfl
  spared _ _ := rfl
  copies _ p range := by omega

/-- One more round. -/
theorem Copied.next {done : Nat}
    (copied : Copied mm ptChild ptParent pages done mm') (more : done < pages)
    (inTable : pagLogInitData + done + pages < totalPages)
    (present :
      (mm.pagusrTable ptParent (pagLogInitData + done)).present = true) :
    Copied mm ptChild ptParent pages (done + 1)
      (copyThroughWindow ptParent ptChild ptParent pages mm'
        (pagLogInitData + done)) := by
  have kept : ∀ d p, p < pagLogInitData + pages →
      mm'.pagusrTable d p = mm.pagusrTable d p := by
    intro d p below
    rw [copied.table, windowClosed, if_neg (by omega)]
  have childFrame : mm'.getFrame ptChild (pagLogInitData + done) =
      mm.getFrame ptChild (pagLogInitData + done) := by
    rw [getFrame, kept _ _ (by omega), getFrame]
  have parentFrame : mm'.getFrame ptParent (pagLogInitData + done) =
      mm.getFrame ptParent (pagLogInitData + done) := by
    rw [getFrame, kept _ _ (by omega), getFrame]
  rw [copyThroughWindow_eq mm' inTable (by omega)
    (by rw [kept _ _ (by omega)]; exact present), childFrame, parentFrame]
  refine ⟨?_, copied.frames, copied.uses, copied.fault, ?_, ?_⟩
  · intro d p
    have before := copied.table d p
    unfold windowClosed at before ⊢
    dsimp only
    by_cases own : d = ptParent
    · subst own
      rw [Function.update_self]
      by_cases isLast : p = pagLogInitData + done + pages
      · rw [isLast, Function.update_self, if_pos ⟨rfl, by omega⟩]
      · rw [Function.update_of_ne isLast, before]
        apply if_congr _ rfl rfl
        apply and_congr_right
        intro _
        omega
    · rw [Function.update_of_ne own, before, if_neg fun both => own both.1,
        if_neg fun both => own both.1]
  · intro f apart
    dsimp only
    rw [Function.update_of_ne (apart _ (by omega)).symm]
    exact copied.spared f fun p range => apart p (by omega)
  · intro distinct p range
    dsimp only
    have source : mm'.ram (mm.getFrame ptParent (pagLogInitData + done)) =
        mm.ram (mm.getFrame ptParent (pagLogInitData + done)) := by
      apply copied.spared
      intro q earlier
      exact (distinct q (pagLogInitData + done) (by omega) (by omega)).1
    by_cases isLast : p = pagLogInitData + done
    · rw [isLast, Function.update_self, source]
    · have different : mm.getFrame ptChild p ≠
          mm.getFrame ptChild (pagLogInitData + done) := fun same =>
        isLast ((distinct p _ (by omega) (by omega)).2 same)
      rw [Function.update_of_ne different]
      exact copied.copies distinct p (by omega)

/-- The loop copies every page if they are all mapped and the window is inside
the table. -/
theorem copyRounds_copied (mm : Memory) (ptChild ptParent : DirId) {done : Nat}
    (some_ : done ≤ pages) (inTable : pagLogInitData + done + pages ≤ totalPages)
    (present : ∀ p, Maps.Range pagLogInitData done p →
      (mm.pagusrTable ptParent p).present = true) :
    Copied mm ptChild ptParent pages done
      (mm.copyRounds ptChild ptParent pages done) := by
  induction done with
  | zero => exact .none mm ptChild ptParent pages
  | succ done inductionHypothesis =>
      rw [copyRounds_succ]
      have earlier := inductionHypothesis (by omega) (by omega)
        fun p range => present p (by omega)
      exact earlier.next (by omega) (by omega) (present _ (by omega))

/-- A loop that ends without a fault copied mapped pages only. -/
theorem copyRounds_noFault (mm : Memory) (ptChild ptParent : DirId)
    {done : Nat} (some_ : done ≤ pages)
    (noFault : (mm.copyRounds ptChild ptParent pages done).fault = false) :
    (done = 0 ∨ pagLogInitData + done + pages ≤ totalPages) ∧
      (∀ p, Maps.Range pagLogInitData done p →
        (mm.pagusrTable ptParent p).present = true) ∧
      Copied mm ptChild ptParent pages done
        (mm.copyRounds ptChild ptParent pages done) := by
  induction done with
  | zero => exact ⟨Or.inl rfl, fun p range => by omega, .none _ _ _ _⟩
  | succ done inductionHypothesis =>
      rw [copyRounds_succ] at noFault ⊢
      have before := (copyThroughWindow_spec _ _ _ _ _ _ noFault).1
      obtain ⟨_, mapped, copied⟩ := inductionHypothesis (by omega) before
      obtain ⟨inTable, source⟩ :=
        copyThroughWindow_source (by omega : 0 < pages) noFault
      have present : (mm.pagusrTable ptParent (pagLogInitData + done)).present =
          true := by
        rw [copied.table, windowClosed, if_neg (by omega)] at source
        exact source
      refine ⟨Or.inr (by omega), ?_, copied.next (by omega) inTable present⟩
      intro p range
      by_cases isLast : p = pagLogInitData + done
      · rw [isLast]
        exact present
      · exact mapped p (by omega)

end Memory

namespace Kernel

open Memory (Maps Copied pageEntry)

variable {s s' : Kernel} {dir : DirId} {uses : DirId → Int} {mm mm' : Memory}

/-! ## A fork that finds its frames -/

/-- The directory of the process that forks. -/
abbrev parentDir (s : Kernel) : DirId := s.currentTask.dirPagesBaseAddr

/-- The pages that the call maps for the child. -/
abbrev ChildPage (s : Kernel) (page : Nat) : Prop :=
  Maps.Range pagLogInitData s.forkPages page

/-- The pages of the parent's table through which the call writes. -/
abbrev WindowPage (s : Kernel) (page : Nat) : Prop :=
  Maps.Range (pagLogInitData + s.forkPages) s.forkPages page

/-- The frame of a page of the child. -/
def childFrame (s : Kernel) (page : Nat) : Nat :=
  s.mm.freeList.getD (page - pagLogInitData) 0

/-- The frames that the call takes. -/
def takenFrames (s : Kernel) : List Nat := s.mm.freeList.take s.forkPages

/-- The tables after a successful fork into `dir`. -/
def forkedEntry (s : Kernel) (dir d : DirId) (page : Nat) : PageTableEntry :=
  if d = s.parentDir ∧ s.WindowPage page then {}
  else if d = dir ∧ s.ChildPage page then pageEntry (s.childFrame page)
  else if d = dir ∧ page < pagLogInitData then
    pageEntry (s.mm.getFrame s.parentDir page)
  else s.mm.pagusrTable d page

/-- The memory after a successful fork into `dir`. -/
structure ForkedSpace (s : Kernel) (dir : DirId) (mm' : Memory) : Prop where
  table : ∀ d page, mm'.pagusrTable d page = s.forkedEntry dir d page
  spared : ∀ frame, frame ∉ s.takenFrames → mm'.ram frame = s.mm.ram frame
  copies : dir ≠ s.parentDir →
    (∀ page, s.ChildPage page → s.mm.getFrame s.parentDir page ∉ s.takenFrames) →
    ∀ page, s.ChildPage page →
      mm'.ram (s.childFrame page) = s.mm.ram (s.mm.getFrame s.parentDir page)

section Taken

variable {page : Nat}

theorem childFrame_taken (enough : s.forkPages ≤ s.mm.freeFrames)
    (range : s.ChildPage page) : s.childFrame page ∈ s.takenFrames := by
  have listed : page - pagLogInitData < s.mm.freeList.length := by
    rw [Memory.length_freeList]
    omega
  rw [childFrame, takenFrames, List.getD_eq_getElem _ _ listed]
  exact List.mem_take_iff_getElem.mpr ⟨page - pagLogInitData, by omega, rfl⟩

theorem childFrame_free (enough : s.forkPages ≤ s.mm.freeFrames)
    (range : s.ChildPage page) :
    s.childFrame page ∈ Memory.frameScan ∧
      s.mm.physMem (s.childFrame page) = .freeFrame :=
  Memory.mem_freeList.mp (List.mem_of_mem_take (childFrame_taken enough range))

theorem childFrame_inj {page' : Nat} (enough : s.forkPages ≤ s.mm.freeFrames)
    (range : s.ChildPage page) (range' : s.ChildPage page')
    (same : s.childFrame page = s.childFrame page') : page = page' := by
  have listed : page - pagLogInitData < s.mm.freeList.length := by
    rw [Memory.length_freeList]
    omega
  have listed' : page' - pagLogInitData < s.mm.freeList.length := by
    rw [Memory.length_freeList]
    omega
  rw [childFrame, childFrame, List.getD_eq_getElem _ _ listed,
    List.getD_eq_getElem _ _ listed',
    s.mm.freeList_nodup.getElem_inj_iff] at same
  omega

end Taken

/-- The tables between the reservation and the copying loop. -/
theorem shared_table (s : Kernel)
    (maps : Maps dir pagLogInitData s.forkPages
      { s.mm with dirCounter := uses } mm) :
    let shared := (mm.sharePages dir s.parentDir 0 numPagKernel).sharePages dir
      s.parentDir pagLogInitCode numPagCode
    (∀ d page, shared.pagusrTable d page =
      if d = dir ∧ s.ChildPage page then pageEntry (s.childFrame page)
      else if d = dir ∧ page < pagLogInitData then
        pageEntry (s.mm.getFrame s.parentDir page)
      else s.mm.pagusrTable d page) ∧
    shared.ram = s.mm.ram ∧ shared.fault = mm.fault := by
  obtain ⟨system, systemRam, _, _, systemFault⟩ :=
    mm.sharePages_table dir s.parentDir 0 numPagKernel (by decide)
  obtain ⟨code, codeRam, _, _, codeFault⟩ :=
    (mm.sharePages dir s.parentDir 0 numPagKernel).sharePages_table dir
      s.parentDir pagLogInitCode numPagCode (by decide)
  refine ⟨?_, (codeRam.trans systemRam).trans maps.ram,
    codeFault.trans systemFault⟩
  have bounds : pagLogInitData = pagLogInitCode + numPagCode ∧
      pagLogInitCode = numPagKernel := by decide
  have low : ∀ d page, page < pagLogInitData →
      mm.pagusrTable d page = s.mm.pagusrTable d page := fun d page below =>
    maps.table d page fun _ range => by omega
  have frame : ∀ page, Maps.Range pagLogInitCode numPagCode page →
      (mm.sharePages dir s.parentDir 0 numPagKernel).getFrame s.parentDir page =
        s.mm.getFrame s.parentDir page := by
    intro page range
    rw [Memory.getFrame, system, if_neg (by omega), low _ _ (by omega)]
    rfl
  intro d page
  rw [code]
  by_cases own : d = dir
  · subst own
    by_cases isCode : Maps.Range pagLogInitCode numPagCode page
    · rw [if_pos ⟨rfl, isCode⟩, frame page isCode, if_neg (by omega),
        if_pos ⟨rfl, by omega⟩]
    rw [if_neg fun both => isCode both.2, system]
    by_cases isSystem : Maps.Range 0 numPagKernel page
    · have kept : mm.getFrame s.parentDir page = s.mm.getFrame s.parentDir page := by
        rw [Memory.getFrame, low _ _ (by omega)]
        rfl
      rw [if_pos ⟨rfl, isSystem⟩, kept, if_neg (by omega), if_pos ⟨rfl, by omega⟩]
    rw [if_neg fun both => isSystem both.2]
    by_cases isData : s.ChildPage page
    · obtain ⟨frame, listed, mapped⟩ := maps.entry isData
      have given : s.childFrame page = frame := by
        rw [childFrame, List.getD_eq_getElem?_getD]
        exact congrArg (Option.getD · 0) listed
      rw [mapped, if_pos ⟨rfl, isData⟩, given]
    · rw [if_neg fun both => isData both.2, if_neg (by omega),
        maps.table d page fun _ => isData]
  · rw [if_neg fun both => own both.1, system, if_neg fun both => own both.1,
      if_neg fun both => own both.1, if_neg fun both => own both.1,
      maps.table d page fun same => absurd same own]

/-- Reservation, sharing and copying together. -/
theorem forkedSpace_of_copied (s : Kernel) (paged : s.Paged)
    (maps : Maps dir pagLogInitData s.forkPages
      { s.mm with dirCounter := uses } mm)
    (copied : ∀ shared : Memory,
      shared = (mm.sharePages dir s.parentDir 0 numPagKernel).sharePages dir
        s.parentDir pagLogInitCode numPagCode →
      Copied shared dir s.parentDir s.forkPages s.forkPages
        (shared.copyRounds dir s.parentDir s.forkPages s.forkPages)) :
    ForkedSpace s dir (s.forkSpace mm dir) ∧
      (s.forkSpace mm dir).fault = s.mm.fault := by
  have enough : s.forkPages ≤ s.mm.freeFrames := by
    have counted := maps.freeFrames
    change s.mm.freeFrames = _ at counted
    omega
  obtain ⟨table, ram, fault⟩ := s.shared_table maps
  have shape : s.forkSpace mm dir =
      ((mm.sharePages dir s.parentDir 0 numPagKernel).sharePages dir s.parentDir
        pagLogInitCode numPagCode).copyRounds dir s.parentDir s.forkPages
          s.forkPages := by
    unfold forkSpace
    dsimp only
    rw [show s.cr3 = s.parentDir from paged, Memory.copyDataPages_eq]
  have copied := copied _ rfl
  rw [shape]
  generalize (mm.sharePages dir s.parentDir 0 numPagKernel).sharePages dir
    s.parentDir pagLogInitCode numPagCode = shared at table ram fault copied
  have childEntry : ∀ page, s.ChildPage page →
      shared.getFrame dir page = s.childFrame page := by
    intro page range
    rw [Memory.getFrame, table, if_pos ⟨rfl, range⟩]
    rfl
  refine ⟨⟨?_, ?_, ?_⟩, (copied.fault.trans fault).trans maps.fault⟩
  · intro d page
    rw [copied.table, Memory.windowClosed, forkedEntry, table]
  · intro frame apart
    rw [copied.spared, ram]
    intro page range same
    rw [childEntry page range] at same
    exact apart (same ▸ childFrame_taken enough range)
  · intro different apart page range
    have parentFrame : ∀ page, s.ChildPage page →
        shared.getFrame s.parentDir page = s.mm.getFrame s.parentDir page := by
      intro page range
      rw [Memory.getFrame, table, if_neg fun both => different both.1.symm,
        if_neg fun both => different both.1.symm]
      rfl
    have copies := copied.copies
    rw [← childEntry page range, ← parentFrame page range, ← ram]
    refine copies (fun p q childPage parentPage => ?_) page range
    rw [childEntry p childPage, parentFrame q parentPage,
      childEntry q parentPage]
    constructor
    · intro same
      exact apart q parentPage (same ▸ childFrame_taken enough childPage)
    · exact childFrame_inj enough childPage parentPage

/-- A fork that ends without a fault. -/
theorem forkedSpace_of_noFault (s : Kernel) (paged : s.Paged)
    (maps : Maps dir pagLogInitData s.forkPages
      { s.mm with dirCounter := uses } mm)
    (noFault : (s.forkSpace mm dir).fault = false) :
    ForkedSpace s dir (s.forkSpace mm dir) := by
  refine (s.forkedSpace_of_copied paged maps ?_).1
  rintro shared rfl
  unfold forkSpace at noFault
  dsimp only at noFault
  rw [show s.cr3 = s.parentDir from paged, Memory.copyDataPages_eq] at noFault
  exact (Memory.copyRounds_noFault _ dir s.parentDir (Nat.le_refl _) noFault).2.2

/-! ## A copy of the whole address space -/

variable {child : TaskId}

/-- A state in which `sys_fork` finds a free PCB, an unused directory and enough
frames, for a caller whose data and heap pages map distinct frames of their own
and whose table is empty above them. -/
structure ForkReady (s : Kernel) (child : TaskId) (dir : DirId) : Prop where
  nonempty : s.listEmpty .freequeue = false
  first : s.listFirst .freequeue = some child
  different : child ≠ s.current
  nonneg : 0 ≤ s.currentTask.heapPages
  mapped : ∀ page, s.ChildPage page →
    (s.mm.pagusrTable s.parentDir page).present = true
  handedOut : ∀ page, s.ChildPage page →
    s.mm.getFrame s.parentDir page ∈ Memory.frameScan ∧
      s.mm.physMem (s.mm.getFrame s.parentDir page) = .usedFrame
  distinct : ∀ page page', s.ChildPage page → s.ChildPage page' →
    s.mm.getFrame s.parentDir page = s.mm.getFrame s.parentDir page' →
      page = page'
  above : ∀ page, pagLogInitData + s.forkPages ≤ page → page < totalPages →
    s.mm.pagusrTable s.parentDir page = {}
  paged : s.Paged
  noFault : s.mm.fault = false
  unused : s.unusedDir = some dir
  clear : ∀ page, s.ChildPage page → (s.mm.pagusrTable dir page).present = false
  enough : s.forkPages ≤ s.mm.freeFrames

/-- `s'` has a child in `dir` that is a copy of the process that ran in `s`. -/
structure SpaceCopied (s : Kernel) (child : TaskId) (dir : DirId) (s' : Kernel) :
    Prop where
  directory : (s'.task child).dirPagesBaseAddr = dir
  noFault : s'.mm.fault = false
  mapped : ∀ page, s.ChildPage page →
    s'.mm.pagusrTable dir page = pageEntry (s'.mm.getFrame dir page)
  fresh : ∀ page, s.ChildPage page →
    s.mm.physMem (s'.mm.getFrame dir page) = .freeFrame
  distinct : ∀ page page', s.ChildPage page → s.ChildPage page' →
    s'.mm.getFrame dir page = s'.mm.getFrame dir page' → page = page'
  contents : ∀ page, s.ChildPage page → ∀ offset,
    s'.mm.ram (s'.mm.getFrame dir page) offset =
      s.mm.ram (s.mm.getFrame s.parentDir page) offset
  code : ∀ page, Maps.Range pagLogInitCode numPagCode page →
    s'.mm.pagusrTable dir page = pageEntry (s.mm.getFrame s.parentDir page)
  window : ∀ page, s.WindowPage page → page < totalPages ∧
    (s.mm.pagusrTable s.parentDir page).present = false
  parent : ∀ page,
    s'.mm.pagusrTable s.parentDir page = s.mm.pagusrTable s.parentDir page
  parentContents : ∀ page, s.ChildPage page → ∀ offset,
    s'.mm.ram (s.mm.getFrame s.parentDir page) offset =
      s.mm.ram (s.mm.getFrame s.parentDir page) offset

namespace ForkReady

/-- The parent's frames and the free ones are among the 384 that `alloc_frame`
looks at. -/
theorem few (ready : s.ForkReady child dir) :
    s.forkPages + s.mm.freeFrames ≤ 384 := by
  have own : ∀ frame, frame ∈ (List.range s.forkPages).map
      (fun k => s.mm.getFrame s.parentDir (pagLogInitData + k)) →
        frame ∈ Memory.frameScan ∧ s.mm.physMem frame = .usedFrame := by
    intro frame member
    obtain ⟨k, inRange, rfl⟩ := List.mem_map.mp member
    have bound := List.mem_range.mp inRange
    exact ready.handedOut _ (by omega)
  have nodup : ((List.range s.forkPages).map
      (fun k => s.mm.getFrame s.parentDir (pagLogInitData + k)) ++
        s.mm.freeList).Nodup := by
    rw [List.nodup_append]
    refine ⟨?_, s.mm.freeList_nodup, ?_⟩
    · apply List.Nodup.map_on
      · intro j inRange k inRange' same
        have bound := List.mem_range.mp inRange
        have bound' := List.mem_range.mp inRange'
        have samePage := ready.distinct _ _ (by omega) (by omega) same
        omega
      · exact List.nodup_range
    · intro frame ours other free same
      have used := (own frame ours).2
      rw [same, (Memory.mem_freeList.mp free).2] at used
      cases used
  have inside : (List.range s.forkPages).map
      (fun k => s.mm.getFrame s.parentDir (pagLogInitData + k)) ++
        s.mm.freeList ⊆ Memory.frameScan := by
    intro frame member
    rcases List.mem_append.mp member with ours | free
    · exact (own frame ours).1
    · exact (Memory.mem_freeList.mp free).1
  have bound := (nodup.subperm inside).length_le
  rw [List.length_append, List.length_map, List.length_range,
    Memory.length_freeList] at bound
  have scanned : Memory.frameScan.length = 384 := by decide +kernel
  omega

/-- The window ends inside the table. -/
theorem inTable (ready : s.ForkReady child dir) :
    pagLogInitData + s.forkPages + s.forkPages ≤ totalPages := by
  have few := ready.few
  have enough := ready.enough
  have bounds : pagLogInitData + 384 ≤ totalPages := by decide
  omega

/-- The child does not get its parent's directory. -/
theorem otherDir (ready : s.ForkReady child dir) : dir ≠ s.parentDir := by
  intro same
  have some_ : s.ChildPage pagLogInitData := by
    have nonneg := ready.nonneg
    constructor
    · exact Nat.le_refl _
    · unfold forkPages
      simp only [numPagData, Nat.cast_ofNat]
      omega
  have present := ready.mapped _ some_
  rw [← same, ready.clear _ some_] at present
  cases present

end ForkReady

/-- The memory that the whole call leaves. -/
theorem ForkReady.forked (ready : s.ForkReady child dir) :
    (s.sysFork.2.task child).dirPagesBaseAddr = dir ∧
      ForkedSpace s dir s.sysFork.2.mm ∧ s.sysFork.2.mm.fault = false := by
  have shape : s.sysFork = (s.listDel child).forkInto child := by
    unfold sysFork
    rw [ready.nonempty, ready.first]
    rfl
  obtain ⟨dir', uses, mm, _, chosen, _, own, outcome⟩ :=
    forkInto_space (s.listDel child) ready.different
  have isDir : dir' = dir := by
    rw [chosen]
    exact congrArg (Option.getD · _) ready.unused
  subst isDir
  have inTable := ready.inTable
  have reserveFault := Memory.reserveData_noFault dir' s.forkPages 0
    { s.mm with dirCounter := uses } (by omega) ready.noFault
  have finds := (Memory.reserveData_iff dir' s.forkPages
    { s.mm with dirCounter := uses } reserveFault).mpr ready.enough
  rw [shape]
  refine ⟨own.dirPagesBaseAddr, ?_⟩
  rcases outcome with ⟨failed, _⟩ | ⟨reserved, _, after⟩
  · change Memory.reserveData dir' s.forkPages 0 { s.mm with dirCounter := uses } =
      _ at failed
    rw [failed] at finds
    cases finds
  · change Memory.reserveData dir' s.forkPages 0 { s.mm with dirCounter := uses } =
      _ at reserved
    rw [reserved] at reserveFault
    have maps := Memory.reserveData_done reserved reserveFault
    obtain ⟨forked, fault⟩ := s.forkedSpace_of_copied ready.paged maps (by
      rintro shared rfl
      obtain ⟨table, _⟩ := s.shared_table maps
      apply Memory.copyRounds_copied _ _ _ (Nat.le_refl _) inTable
      intro page range
      rw [table, if_neg fun both => ready.otherDir both.1.symm,
        if_neg fun both => ready.otherDir both.1.symm]
      exact ready.mapped page range)
    rw [after]
    exact ⟨forked, fault.trans ready.noFault⟩

/-- A successful `sys_fork` copies its caller's whole address space. -/
theorem fork_copies_space (ready : s.ForkReady child dir) :
    SpaceCopied s child dir s.sysFork.2 := by
  obtain ⟨directory, forked, noFault⟩ := ready.forked
  have inTable := ready.inTable
  have different := ready.otherDir
  have apart : ∀ page, s.ChildPage page →
      s.mm.getFrame s.parentDir page ∉ s.takenFrames := by
    intro page range taken
    have used := (ready.handedOut page range).2
    rw [(Memory.mem_freeList.mp (List.mem_of_mem_take taken)).2] at used
    cases used
  have childEntry : ∀ page, s.ChildPage page →
      s.sysFork.2.mm.pagusrTable dir page = pageEntry (s.childFrame page) := by
    intro page range
    rw [forked.table, forkedEntry, if_neg fun both => different both.1,
      if_pos ⟨rfl, range⟩]
  have frame : ∀ page, s.ChildPage page →
      s.sysFork.2.mm.getFrame dir page = s.childFrame page := by
    intro page range
    rw [Memory.getFrame, childEntry page range]
    rfl
  refine ⟨directory, noFault, ?_, ?_, ?_, ?_, ?_, ?_, ?_, ?_⟩
  · intro page range
    rw [childEntry page range, frame page range]
  · intro page range
    rw [frame page range]
    exact (childFrame_free ready.enough range).2
  · intro page page' range range' same
    rw [frame page range, frame page' range'] at same
    exact childFrame_inj ready.enough range range' same
  · intro page range offset
    rw [frame page range, forked.copies different apart page range]
  · intro page range
    have bounds : pagLogInitData = pagLogInitCode + numPagCode := by decide
    rw [forked.table, forkedEntry, if_neg fun both => different both.1,
      if_neg (by omega), if_pos ⟨rfl, by omega⟩]
  · intro page range
    refine ⟨by omega, ?_⟩
    rw [ready.above page range.1 (by omega)]
  · intro page
    rw [forked.table, forkedEntry]
    by_cases window : s.WindowPage page
    · rw [if_pos ⟨rfl, window⟩, ready.above page window.1 (by omega)]
    · rw [if_neg fun both => window both.2, if_neg fun both => different both.1.symm,
        if_neg fun both => different both.1.symm]
  · intro page range offset
    rw [forked.spared _ (apart page range)]

/-- The frames and pages after the first process has moved its break into the
first heap page. -/
structure GrownSample (s : Kernel) : Prop where
  calls : s.listEmpty .freequeue = false ∧ s.listFirst .freequeue = some 2 ∧
    (2 : TaskId) ≠ s.current ∧ 0 ≤ s.currentTask.heapPages ∧ s.forkPages = 21 ∧
    s.cr3 = s.currentTask.dirPagesBaseAddr ∧ s.mm.fault = false ∧
    s.unusedDir = some 2 ∧ s.mm.freeFrames = 355
  own : ∀ k < 21, (s.mm.pagusrTable s.parentDir (264 + k)).present = true ∧
    s.mm.getFrame s.parentDir (264 + k) = 272 + 2 * k ∧
    s.mm.physMem (272 + 2 * k) = .usedFrame
  above : ∀ k < 739, s.mm.pagusrTable s.parentDir (285 + k) = {}
  clear : ∀ k < 21, (s.mm.pagusrTable 2 (264 + k)).present = false

theorem GrownSample.ready (grown : s.GrownSample) : s.ForkReady 2 2 := by
  obtain ⟨⟨nonempty, first, different, nonneg, pages, paged, noFault, unused,
    free⟩, own, above, clear⟩ := grown
  have scanned : ∀ k < 21, 272 + 2 * k ∈ Memory.frameScan := by decide +kernel
  have childPage : ∀ page, s.ChildPage page → ∃ k < 21, page = 264 + k := by
    intro page range
    unfold ChildPage Maps.Range at range
    rw [pages] at range
    simp only [pagLogInitData, pagLogInitCode, numPagCode] at range
    exact ⟨page - 264, by omega, by omega⟩
  refine ⟨nonempty, first, different, nonneg, ?_, ?_, ?_, ?_, paged, noFault,
    unused, ?_, ?_⟩
  · intro page range
    obtain ⟨k, bound, rfl⟩ := childPage page range
    exact (own k bound).1
  · intro page range
    obtain ⟨k, bound, rfl⟩ := childPage page range
    obtain ⟨_, frame, used⟩ := own k bound
    rw [frame]
    exact ⟨scanned k bound, used⟩
  · intro page page' range range' same
    obtain ⟨j, bound, rfl⟩ := childPage page range
    obtain ⟨k, bound', rfl⟩ := childPage page' range'
    rw [(own j bound).2.1, (own k bound').2.1] at same
    omega
  · intro page lower upper
    rw [pages] at lower
    simp only [pagLogInitData, pagLogInitCode, numPagCode, totalPages] at lower upper
    have entry := above (page - 285) (by omega)
    rwa [show 285 + (page - 285) = page by omega] at entry
  · intro page range
    obtain ⟨k, bound, rfl⟩ := childPage page range
    exact clear k bound
  · rw [pages, free]
    decide

/-- The first process moves its break and forks: twenty data pages and a heap
page are copied. -/
theorem fork_copies_space_grown :
    SpaceCopied (Library.lastState step (boot sampleImage) [.syscall (.sbrk 5000)])
      2 2 (Library.lastState step (boot sampleImage)
        [.syscall (.sbrk 5000)]).sysFork.2 := by
  have grown : (Library.lastState step (boot sampleImage)
      [.syscall (.sbrk 5000)]).GrownSample := by
    constructor <;> decide +kernel
  exact fork_copies_space grown.ready

end Kernel

end Zeos
