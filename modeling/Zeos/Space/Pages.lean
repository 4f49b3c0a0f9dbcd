import Zeos.Space.Frames

/-!
# Runs of pages

The loops of `mm.c` and `sys_fork` over consecutive pages of one table: pages
that get fresh frames (`Maps`), pages that are freed and unmapped together,
pages that are shared, and the window through which a child's pages are
written.
-/

namespace Zeos

namespace Memory

open Library (Holdings)

variable {mm mm' mm₁ mm₂ : Memory} {dir : DirId} {first count frame page : Nat}

/-! ## Mapping fresh frames -/

/-- `count` pages of the table of `dir`, from `first` on, get a fresh frame
each. -/
inductive Maps (dir : DirId) : Nat → Nat → Memory → Memory → Prop
  | done {first : Nat} {mm : Memory} : Maps dir first 0 mm mm
  | next {first count frame : Nat} {mm mm₁ mm₂ : Memory} :
      first < totalPages →
      mm.allocFrame = some (frame, mm₁) →
      Maps dir (first + 1) count (mm₁.setSsPag dir first frame) mm₂ →
      Maps dir first (count + 1) mm mm₂

/-- One page gets a fresh frame. -/
theorem reserve_edit (dir : DirId) (found : mm.allocFrame = some (frame, mm₁))
    (page : Nat) (inTable : page < totalPages) (tidy : mm.Tidy) :
    Edit dir (· = page) mm (mm₁.setSsPag dir page frame) := by
  obtain ⟨lower, upper, free, rfl, _⟩ := allocFrame_some found
  have notFirst : frame ≠ numPagKernel := by
    intro same
    rw [same, tidy.firstUsed] at free
    cases free
  have taken : Edit dir (· = page) mm { mm with
      physMem := Function.update mm.physMem frame .usedFrame } := by
    refine ⟨fun _ => ⟨?_, tidy.present, tidy.absent⟩, rfl, fun _ _ _ => rfl⟩
    simp only [Function.update_of_ne (Ne.symm notFirst)]
    exact tidy.firstUsed
  apply taken.trans
  have written : Edit dir (fun p : Nat => (p : Int) = page) _
      ({ mm with physMem := Function.update mm.physMem frame .usedFrame }.setSsPag
        dir page frame) :=
    setEntry_edit ⟨by omega, by omega⟩
      (show _ → TidyEntry ⟨true, true, true, frame⟩ from fun _ =>
        ⟨fun _ => ⟨lt_of_le_of_ne lower (Ne.symm notFirst), upper⟩,
          fun absent => by cases absent⟩)
  apply written.mono
  intro p same
  exact Int.ofNat_inj.mp same

theorem reserve_holdings (dir : DirId) (found : mm.allocFrame = some (frame, mm₁))
    (high : pagLogInitData ≤ page) (inTable : page < totalPages) :
    (mm₁.setSsPag dir page frame).holdings =
        mm.holdings.acquire (dir, page) frame ∧
      ¬ mm.holdings.used frame := by
  obtain ⟨_, _, free, rfl, _⟩ := allocFrame_some found
  have indexed : InTable page := ⟨by omega, by omega⟩
  constructor
  · rw [setSsPag_holdings indexed high]
    apply Holdings.ext
    · rfl
    · funext x
      by_cases same : x = frame
      · simp [same, holdings, Holdings.acquire]
      · simp [same, holdings, Holdings.acquire]
  · change mm.physMem frame ≠ .usedFrame
    rw [free]
    intro used
    cases used

theorem setSsPag_freeFrames (mm : Memory) (dir : DirId) (index : Int)
    (frame : Nat) : (mm.setSsPag dir index frame).freeFrames = mm.freeFrames := by
  unfold freeFrames setSsPag
  rw [(setEntry_frames dir index _).1]

theorem delSsPag_freeFrames (mm : Memory) (dir : DirId) (index : Int) :
    (mm.delSsPag dir index).freeFrames = mm.freeFrames := by
  unfold freeFrames delSsPag
  rw [(setEntry_frames dir index _).1]

/-- The entry that `set_ss_pag` writes. -/
def pageEntry (frame : Nat) : PageTableEntry :=
  { present := true, rw := true, user := true, pbaseAddr := frame }

namespace Maps

/-- The pages from `first` on, and those below `first + count`. -/
abbrev Range (first count page : Nat) : Prop :=
  first ≤ page ∧ page < first + count

theorem edit (maps : Maps dir first count mm mm') (tidy : mm.Tidy) :
    Edit dir (Range first count) mm mm' := by
  induction maps with
  | done => exact .refl _ _ _
  | @next first count frame mm mm₁ mm₂ inTable found _ inductionHypothesis =>
      have one := reserve_edit dir found first inTable tidy
      have rest := inductionHypothesis (one.tidy tidy)
      have oneWide : Edit dir (Range first (count + 1)) mm _ :=
        one.mono fun page same => by omega
      apply oneWide.trans
      apply rest.mono
      intro page range
      constructor <;> omega

theorem freeFrames (maps : Maps dir first count mm mm') :
    mm.freeFrames = mm'.freeFrames + count := by
  induction maps with
  | done => rfl
  | next inTable found _ inductionHypothesis =>
      obtain ⟨_, _, _, _, counted⟩ := allocFrame_some found
      rw [setSsPag_freeFrames] at inductionHypothesis
      omega

/-- Only the entries of the run change. -/
theorem table (maps : Maps dir first count mm mm') (d : DirId) (p : Nat)
    (outside : d = dir → ¬ Range first count p) :
    mm'.pagusrTable d p = mm.pagusrTable d p := by
  induction maps with
  | done => rfl
  | @next first count frame mm mm₁ mm₂ inTable found _ inductionHypothesis =>
      obtain ⟨_, _, _, rfl, _⟩ := allocFrame_some found
      have indexed : InTable first := by constructor <;> omega
      rw [inductionHypothesis fun same range => outside same (by omega)]
      unfold setSsPag
      rw [setEntry_table indexed, if_neg fun same => outside same.1 (by omega)]

/-- The first page of the run gets the frame that `alloc_frame` finds. -/
theorem firstEntry (maps : Maps dir first (count + 1) mm mm') :
    mm.allocFrame.map (fun found => pageEntry found.1) =
      some (mm'.pagusrTable dir first) := by
  cases maps with
  | next inTable found rest =>
      have indexed : InTable first := by constructor <;> omega
      rw [found, Option.map_some, rest.table dir first fun _ => by omega]
      unfold setSsPag
      rw [setEntry_table indexed, if_pos ⟨rfl, rfl⟩]
      rfl

theorem fault (maps : Maps dir first count mm mm') : mm'.fault = mm.fault := by
  induction maps with
  | done => rfl
  | next inTable found _ inductionHypothesis =>
      obtain ⟨_, _, _, rfl, _⟩ := allocFrame_some found
      rw [inductionHypothesis]
      unfold setSsPag setEntry
      split_ifs with indexed
      · rfl
      · exact absurd ⟨by omega, by omega⟩ indexed

theorem exclusive (maps : Maps dir first count mm mm')
    (high : pagLogInitData ≤ first) (before : mm.holdings.Exclusive) :
    mm'.holdings.Exclusive := by
  induction maps with
  | done => exact before
  | next inTable found _ inductionHypothesis =>
      obtain ⟨same, fresh⟩ :=
        reserve_holdings dir found high inTable
      apply inductionHypothesis (by omega)
      rw [same]
      exact before.acquire fresh _

/-- What is held afterwards: the old places outside the run, and a frame at
each place of the run. -/
theorem held (maps : Maps dir first count mm mm')
    (high : pagLogInitData ≤ first) :
    (∀ d p, (d = dir → ¬ Range first count p) →
      mm'.holdings.held (d, p) = mm.holdings.held (d, p)) ∧
    (∀ p, Range first count p → ∃ f, mm'.holdings.held (dir, p) = some f) ∧
    (∀ f, mm.holdings.used f → mm'.holdings.used f) ∧
    (∀ f, mm'.holdings.used f → mm.holdings.used f ∨
      ∃ p, Range first count p ∧ mm'.holdings.held (dir, p) = some f) := by
  induction maps with
  | done => exact ⟨fun _ _ _ => rfl, fun p range => by omega, fun _ => id,
      fun _ => Or.inl⟩
  | @next first count frame mm mm₁ mm₂ inTable found _ inductionHypothesis =>
      obtain ⟨same, _⟩ := reserve_holdings dir found high inTable
      obtain ⟨outside, inside, kept, grown⟩ := inductionHypothesis (by omega)
      rw [same] at outside kept grown
      have own : mm₂.holdings.held (dir, first) = some frame := by
        rw [outside dir first (by omega)]
        exact Holdings.acquire_self
      refine ⟨?_, ?_, ?_, ?_⟩
      · intro d p notRange
        have different : (d, p) ≠ (dir, first) := by
          rintro ⟨⟩
          exact notRange rfl ⟨Nat.le_refl _, by omega⟩
        rw [outside d p fun sameDir range => notRange sameDir (by omega)]
        exact Holdings.acquire_of_ne different
      · intro p range
        by_cases isFirst : p = first
        · subst isFirst
          exact ⟨frame, own⟩
        · exact inside p (by omega)
      · intro f used
        exact kept f (Or.inr used)
      · intro f used
        rcases grown f used with (isFresh | old) | ⟨p, range, holds⟩
        · subst isFresh
          exact Or.inr ⟨first, by omega, own⟩
        · exact Or.inl old
        · exact Or.inr ⟨p, by omega, holds⟩

/-- The frames of the run were free before. -/
theorem fresh (maps : Maps dir first count mm mm')
    (high : pagLogInitData ≤ first) :
    ∀ p f, Range first count p → mm'.holdings.held (dir, p) = some f →
      ¬ mm.holdings.used f := by
  induction maps with
  | done => exact fun p _ range => by omega
  | @next first count frame mm mm₁ mm₂ inTable found rest inductionHypothesis =>
      obtain ⟨same, free⟩ := reserve_holdings dir found high inTable
      have later := inductionHypothesis (by omega)
      rw [same] at later
      intro p f range holds
      by_cases isFirst : p = first
      · subst isFirst
        obtain ⟨outside, _⟩ := rest.held (by omega)
        rw [outside dir p (by omega), same, Holdings.acquire_self,
          Option.some_inj] at holds
        rw [← holds]
        exact free
      · exact fun used => later p f (by omega) holds (Or.inr used)

end Maps

/-! ## Freeing and unmapping pages -/

/-- One round of `free_user_pages`, and of the rollback of `sys_fork`. -/
def givePage (dir : DirId) (mm : Memory) (page : Nat) : Memory :=
  (mm.freeFrame (mm.getFrame dir page)).delSsPag dir page

theorem givePage_edit (dir : DirId) (mm : Memory) (inTable : page < totalPages) :
    Edit dir (· = page) mm (givePage dir mm page) := by
  have freed := freeFrame_edit dir (· = page) mm (mm.getFrame dir page)
  apply freed.trans
  apply (delSsPag_edit ⟨by omega, by omega⟩).mono
  intro p same
  exact Int.ofNat_inj.mp same

theorem givePage_noFault (noFault : (givePage dir mm page).fault = false) :
    page < totalPages ∧ mm.fault = false := by
  unfold givePage at noFault
  obtain ⟨inTable, before⟩ := delSsPag_noFault noFault
  obtain ⟨_, _, sameFault⟩ := freeFrame_table mm (mm.getFrame dir page)
  exact ⟨Int.ofNat_lt.mp inTable.2, sameFault ▸ before⟩

theorem held_eq_some (mm : Memory) (dir : DirId) (high : pagLogInitData ≤ page)
    (present : (mm.pagusrTable dir page).present = true) :
    mm.holdings.held (dir, page) = some (mm.getFrame dir page) :=
  if_pos ⟨high, present⟩

theorem held_eq_none (mm : Memory) (dir : DirId)
    (absent : (mm.pagusrTable dir page).present = false) :
    mm.holdings.held (dir, page) = none :=
  if_neg fun both => by rw [absent] at both; cases both.2

/-- Freeing the frame of a page gives back what the page holds. -/
theorem freeFrame_used_iff (tidy : mm.Tidy) (high : pagLogInitData ≤ page)
    (f : Nat) :
    (mm.freeFrame (mm.getFrame dir page)).holdings.used f ↔
      mm.holdings.used f ∧ mm.holdings.held (dir, page) ≠ some f := by
  change (mm.freeFrame (mm.getFrame dir page)).physMem f = .usedFrame ↔ _
  rw [freeFrame_used]
  apply and_congr_right
  intro _
  cases present : (mm.pagusrTable dir page).present with
  | true =>
      have range := tidy.present dir page high present
      rw [held_eq_some mm dir high present, ne_eq, Option.some_inj]
      constructor
      · intro notFreed same
        exact notFreed ⟨same.symm, range⟩
      · intro different freed
        exact different freed.1.symm
  | false =>
      rw [held_eq_none mm dir present, tidy.absent dir page high present]
      simp

theorem givePage_holdings (tidy : mm.Tidy) (high : pagLogInitData ≤ page)
    (noFault : (givePage dir mm page).fault = false) :
    (givePage dir mm page).holdings = mm.holdings.surrender (dir, page) := by
  unfold givePage at noFault ⊢
  have inTable := (delSsPag_noFault noFault).1
  have tables : (mm.freeFrame (mm.getFrame dir page)).holdings.held =
      mm.holdings.held := by
    unfold holdings getFrame
    rw [(freeFrame_table mm _).1]
  rw [delSsPag_holdings inTable]
  apply Holdings.ext
  · simp only [Holdings.vacate, Holdings.surrender, tables]
  · funext f
    exact propext (freeFrame_used_iff tidy high f)

/-- Giving back several pages of one table. -/
theorem givePages_spec (dir : DirId) (pages : List Nat)
    (high : ∀ page ∈ pages, pagLogInitData ≤ page) (mm : Memory)
    (noFault : (pages.foldl (givePage dir) mm).fault = false) :
    mm.fault = false ∧
      Edit dir (· ∈ pages) mm (pages.foldl (givePage dir) mm) ∧
      (mm.Tidy → (pages.foldl (givePage dir) mm).holdings =
        mm.holdings.surrenderAll (pages.map (Prod.mk dir))) := by
  induction pages generalizing mm with
  | nil => exact ⟨noFault, .refl _ _ _, fun _ => rfl⟩
  | cons page pages inductionHypothesis =>
      rw [List.foldl_cons] at noFault ⊢
      obtain ⟨middle, rest, given⟩ := inductionHypothesis
        (fun other member => high other (List.mem_cons_of_mem page member))
        (givePage dir mm page) noFault
      have one := givePage_edit dir mm (givePage_noFault middle).1
      refine ⟨(givePage_noFault middle).2, ?_, ?_⟩
      · have oneWide := one.mono fun p same =>
          show p ∈ page :: pages from same ▸ List.mem_cons_self
        apply oneWide.trans
        apply rest.mono
        intro p member
        exact List.mem_cons_of_mem page member
      · intro tidy
        rw [given (one.tidy tidy),
          givePage_holdings tidy (high page List.mem_cons_self) middle]
        rfl

/-- The pages of the data segment and of the heap, from page number `offset`
of them on. -/
def dataPages (count : Nat) : List Nat :=
  (List.range count).map (pagLogInitData + ·)

theorem mem_dataPages : page ∈ dataPages count ↔
    pagLogInitData ≤ page ∧ page < pagLogInitData + count := by
  unfold dataPages
  rw [List.mem_map]
  constructor
  · rintro ⟨k, inRange, rfl⟩
    have bound := List.mem_range.mp inRange
    omega
  · intro range
    exact ⟨page - pagLogInitData, List.mem_range.mpr (by omega), by omega⟩

theorem foldl_dataPages (step : Memory → Nat → Memory) (count : Nat)
    (mm : Memory) :
    (List.range count).foldl (fun mm pag => step mm (pagLogInitData + pag)) mm =
      (dataPages count).foldl step mm := by
  rw [dataPages, List.foldl_map]

theorem freeUserPages_eq (mm : Memory) (dir : DirId) :
    mm.freeUserPages dir = (dataPages numPagData).foldl (givePage dir) mm :=
  foldl_dataPages (givePage dir) numPagData mm

theorem releaseData_eq (mm : Memory) (dir : DirId) (pg : Nat) :
    mm.releaseData dir pg = (dataPages pg).foldl (givePage dir) mm :=
  foldl_dataPages (givePage dir) pg mm

/-- The places of the first `count` data and heap pages of a table. -/
def dataPlaces (dir : DirId) (count : Nat) : List (DirId × Nat) :=
  (dataPages count).map (Prod.mk dir)

theorem mem_dataPlaces {place : DirId × Nat} : place ∈ dataPlaces dir count ↔
    place.1 = dir ∧ pagLogInitData ≤ place.2 ∧
      place.2 < pagLogInitData + count := by
  unfold dataPlaces
  rw [List.mem_map]
  constructor
  · rintro ⟨page, member, rfl⟩
    exact ⟨rfl, mem_dataPages.mp member⟩
  · rintro ⟨rfl, range⟩
    exact ⟨place.2, mem_dataPages.mpr range, rfl⟩

/-- The common behaviour of `free_user_pages` and of the rollback of
`sys_fork`. -/
theorem giveDataPages_spec (mm : Memory) (dir : DirId) (count : Nat)
    (noFault : ((dataPages count).foldl (givePage dir) mm).fault = false) :
    mm.fault = false ∧
      Edit dir (Maps.Range pagLogInitData count) mm
        ((dataPages count).foldl (givePage dir) mm) ∧
      (mm.Tidy → ((dataPages count).foldl (givePage dir) mm).holdings =
        mm.holdings.surrenderAll (dataPlaces dir count)) := by
  obtain ⟨before, edit, given⟩ := givePages_spec dir (dataPages count)
    (fun page member => (mem_dataPages.mp member).1) mm noFault
  refine ⟨before, ?_, given⟩
  apply edit.mono
  intro page member
  exact mem_dataPages.mp member

/-! ## The reservation loop of `sys_fork` -/

/-- The loop maps all pages, or it runs out of frames and gives back those it
mapped. -/
theorem reserveData_cases (dir : DirId) (count pg : Nat) (mm : Memory)
    (noFault : (reserveData dir count pg mm).2.fault = false) :
    mm.fault = false ∧
      ((∃ mm₁, reserveData dir count pg mm = (true, mm₁) ∧
          Maps dir (pagLogInitData + pg) count mm mm₁) ∨
        (∃ k mm₁, k < count ∧ mm₁.freeFrames = 0 ∧
          Maps dir (pagLogInitData + pg) k mm mm₁ ∧
          reserveData dir count pg mm =
            (false, mm₁.releaseData dir (pg + k)))) := by
  induction count generalizing pg mm with
  | zero => exact ⟨noFault, Or.inl ⟨mm, rfl, .done⟩⟩
  | succ count inductionHypothesis =>
      cases found : mm.allocFrame with
      | none =>
          have stops : reserveData dir (count + 1) pg mm =
              (false, mm.releaseData dir pg) := by
            simp only [reserveData, found]
          rw [stops, releaseData_eq] at noFault
          have before := (giveDataPages_spec mm dir pg noFault).1
          exact ⟨before, Or.inr ⟨0, mm, by omega, allocFrame_none_iff.mp found,
            .done, stops⟩⟩
      | some reserved =>
          obtain ⟨frame, mm₁⟩ := reserved
          have goesOn : reserveData dir (count + 1) pg mm =
              reserveData dir count (pg + 1)
                (mm₁.setSsPag dir (pagLogInitData + pg : Nat) frame) := by
            simp only [reserveData, found]
          rw [goesOn] at noFault ⊢
          obtain ⟨middle, outcome⟩ := inductionHypothesis (pg + 1) _ noFault
          obtain ⟨inTable, before⟩ := setSsPag_noFault middle
          have bound : pagLogInitData + pg < totalPages :=
            Int.ofNat_lt.mp inTable.2
          obtain ⟨_, _, _, rfl, _⟩ := allocFrame_some found
          refine ⟨before, ?_⟩
          rcases outcome with ⟨mm₂, finished, maps⟩ |
            ⟨k, mm₂, short, empty, maps, stopped⟩
          · exact Or.inl ⟨mm₂, finished, .next bound found maps⟩
          · refine Or.inr ⟨k + 1, mm₂, by omega, empty, .next bound found maps, ?_⟩
            rw [stopped, show pg + 1 + k = pg + (k + 1) by omega]

theorem givePages_noFault (dir : DirId) (pages : List Nat)
    (inTable : ∀ page ∈ pages, page < totalPages) (mm : Memory)
    (noFault : mm.fault = false) :
    (pages.foldl (givePage dir) mm).fault = false := by
  induction pages generalizing mm with
  | nil => exact noFault
  | cons page pages inductionHypothesis =>
      have indexed : InTable page := by
        have bound := inTable page List.mem_cons_self
        constructor <;> omega
      apply inductionHypothesis
      · intro other member
        exact inTable other (List.mem_cons_of_mem page member)
      · unfold givePage delSsPag setEntry
        rw [if_pos indexed]
        exact (freeFrame_table mm _).2.2.trans noFault

/-- Inside the table the loop ends without a fault. -/
theorem reserveData_noFault (dir : DirId) (count pg : Nat) (mm : Memory)
    (inTable : pagLogInitData + pg + count ≤ totalPages)
    (noFault : mm.fault = false) :
    (reserveData dir count pg mm).2.fault = false := by
  induction count generalizing pg mm with
  | zero => exact noFault
  | succ count inductionHypothesis =>
      cases found : mm.allocFrame with
      | none =>
          simp only [reserveData, found]
          rw [releaseData_eq]
          apply givePages_noFault dir _ _ mm noFault
          intro page member
          have range := mem_dataPages.mp member
          omega
      | some reserved =>
          obtain ⟨frame, mm₁⟩ := reserved
          simp only [reserveData, found]
          apply inductionHypothesis
          · omega
          · obtain ⟨_, _, _, rfl, _⟩ := allocFrame_some found
            unfold setSsPag setEntry
            rw [if_pos ⟨by omega, by omega⟩]
            exact noFault

/-- Whether the loop finds all frames depends on their number alone. -/
theorem reserveData_iff (dir : DirId) (count : Nat) (mm : Memory)
    (noFault : (reserveData dir count 0 mm).2.fault = false) :
    (reserveData dir count 0 mm).1 = true ↔ count ≤ mm.freeFrames := by
  obtain ⟨_, ⟨mm₁, finished, maps⟩ | ⟨k, mm₁, short, empty, maps, stopped⟩⟩ :=
    reserveData_cases dir count 0 mm noFault
  · have counted := maps.freeFrames
    rw [finished]
    exact iff_of_true rfl (by omega)
  · have counted := maps.freeFrames
    rw [stopped]
    exact iff_of_false (by simp) (by omega)

/-! ## Sharing and copying -/

theorem sharePages_spec (mm : Memory) (ptChild ptParent : DirId)
    (first count : Nat) (low : first + count ≤ pagLogInitData) :
    Edit ptChild (· < pagLogInitData) mm
        (mm.sharePages ptChild ptParent first count) ∧
      (mm.sharePages ptChild ptParent first count).holdings = mm.holdings ∧
      ((mm.sharePages ptChild ptParent first count).fault = false →
        mm.fault = false) := by
  have rounds : ∀ (pages : List Nat), (∀ pg ∈ pages, pg < count) →
      ∀ mm : Memory,
      let shared := pages.foldl (fun mm pg => mm.setSsPag ptChild
        (first + pg : Nat) (mm.getFrame ptParent (first + pg))) mm
      Edit ptChild (· < pagLogInitData) mm shared ∧
        shared.holdings = mm.holdings ∧
          (shared.fault = false → mm.fault = false) := by
    intro pages
    induction pages with
    | nil => exact fun _ mm => ⟨.refl _ _ _, rfl, id⟩
    | cons pg pages inductionHypothesis =>
        intro inRange mm
        have bound := inRange pg List.mem_cons_self
        have below : ((first + pg : Nat) : Int) < pagLogInitData := by omega
        have small : pagLogInitData < totalPages := by decide
        obtain ⟨edit, holdings, noFault⟩ := inductionHypothesis
          (fun other member => inRange other (List.mem_cons_of_mem pg member))
          (mm.setSsPag ptChild (first + pg : Nat)
            (mm.getFrame ptParent (first + pg)))
        simp only [List.foldl_cons]
        refine ⟨?_, ?_, ?_⟩
        · have one : Edit ptChild (fun p : Nat => (p : Int) = (first + pg : Nat))
              mm (mm.setSsPag ptChild (first + pg : Nat)
                (mm.getFrame ptParent (first + pg))) :=
            setEntry_edit ⟨by omega, by omega⟩ fun high => absurd high (by omega)
          have oneWide : Edit ptChild (· < pagLogInitData) mm _ :=
            one.mono fun p same => by omega
          exact oneWide.trans edit
        · exact holdings.trans (setEntry_holdings_low ⟨by omega, by omega⟩ below)
        · intro after
          exact (setSsPag_noFault (noFault after)).2
  apply rounds
  intro pg member
  exact List.mem_range.mp member

theorem copyPage_cases (mm : Memory) (dir : DirId) (source target : Nat) :
    ∃ ram fault, mm.copyPage dir source target =
      { mm with ram := ram, fault := fault } ∧
        (fault = false → mm.fault = false) := by
  unfold copyPage
  split
  · exact ⟨_, mm.fault, rfl, id⟩
  · exact ⟨mm.ram, true, rfl, nofun⟩

/-- The second of two stores to one entry is the one that counts. -/
theorem setEntry_twice (mm : Memory) (dir : DirId) (index : Int)
    (entry entry' : PageTableEntry) (ram : Nat → Nat → UInt8) (fault : Bool)
    (noFault : ({ mm.setEntry dir index entry with
      ram := ram, fault := fault }.setEntry dir index entry').fault = false) :
    let twice := { mm.setEntry dir index entry with
      ram := ram, fault := fault }.setEntry dir index entry'
    let once := mm.setEntry dir index entry'
    twice.pagusrTable = once.pagusrTable ∧ twice.physMem = once.physMem ∧
      twice.dirCounter = once.dirCounter := by
  have inTable := (setEntry_noFault noFault).1
  unfold setEntry
  simp only [if_pos inTable, Function.update_self, Function.update_idem,
    and_self]

/-- A page of the window is unmapped in the end. -/
theorem copyThroughWindow_spec (cr3 ptChild ptParent : DirId) (distance : Nat)
    (mm : Memory) (pg : Nat)
    (noFault :
      (copyThroughWindow cr3 ptChild ptParent distance mm pg).fault = false) :
    mm.fault = false ∧
      Edit ptParent (· = pg + distance) mm
        (copyThroughWindow cr3 ptChild ptParent distance mm pg) ∧
      (copyThroughWindow cr3 ptChild ptParent distance mm pg).holdings =
        mm.holdings.vacate (ptParent, pg + distance) := by
  obtain ⟨ram, fault, copied, stillNoFault⟩ := copyPage_cases
    (mm.setSsPag ptParent (pg + distance : Nat) (mm.getFrame ptChild pg)) cr3 pg
      (pg + distance)
  have shape : copyThroughWindow cr3 ptChild ptParent distance mm pg =
      { mm.setSsPag ptParent (pg + distance : Nat) (mm.getFrame ptChild pg) with
        ram := ram, fault := fault }.delSsPag ptParent (pg + distance : Nat) := by
    unfold copyThroughWindow
    dsimp only
    rw [copied]
  rw [shape] at noFault ⊢
  obtain ⟨inTable, noFault'⟩ := delSsPag_noFault noFault
  have before := (setSsPag_noFault (stillNoFault noFault')).2
  obtain ⟨tables, frames, uses⟩ := setEntry_twice mm ptParent
    (pg + distance : Nat) ⟨true, true, true, mm.getFrame ptChild pg⟩ {} ram
    fault noFault
  refine ⟨before, ?_, ?_⟩
  · have deleted : Edit ptParent (fun p : Nat => (p : Int) = (pg + distance : Nat))
        mm (mm.delSsPag ptParent (pg + distance : Nat)) := delSsPag_edit inTable
    have narrow : Edit ptParent (· = pg + distance) mm _ :=
      deleted.mono fun p same => Int.ofNat_inj.mp same
    exact narrow.trans (.of_eq tables frames uses)
  · rw [← delSsPag_holdings inTable]
    exact holdings_congr tables frames

/-- The places in the parent's table through which `pages` pages are copied. -/
def windowPlaces (ptParent : DirId) (pages : Nat) : List (DirId × Nat) :=
  (List.range pages).map fun k => (ptParent, pagLogInitData + k + pages)

theorem mem_windowPlaces {ptParent : DirId} {pages : Nat}
    {place : DirId × Nat} : place ∈ windowPlaces ptParent pages ↔
      place.1 = ptParent ∧ pagLogInitData + pages ≤ place.2 ∧
        place.2 < pagLogInitData + 2 * pages := by
  unfold windowPlaces
  rw [List.mem_map]
  constructor
  · rintro ⟨k, inRange, rfl⟩
    have bound := List.mem_range.mp inRange
    refine ⟨rfl, ?_, ?_⟩ <;> dsimp only <;> omega
  · rintro ⟨rfl, lower, upper⟩
    refine ⟨place.2 - pagLogInitData - pages, List.mem_range.mpr (by omega), ?_⟩
    apply Prod.ext
    · rfl
    · dsimp only
      omega

/-- The copying loop leaves the window unmapped. -/
theorem copyDataPages_spec (mm : Memory) (cr3 ptChild ptParent : DirId)
    (pages : Nat)
    (noFault : (mm.copyDataPages cr3 ptChild ptParent pages).fault = false) :
    mm.fault = false ∧
      Edit ptParent (fun p => (ptParent, p) ∈ windowPlaces ptParent pages) mm
        (mm.copyDataPages cr3 ptChild ptParent pages) ∧
      (mm.copyDataPages cr3 ptChild ptParent pages).holdings =
        mm.holdings.vacateAll (windowPlaces ptParent pages) := by
  have rounds : ∀ (ks : List Nat) (mm : Memory),
      (ks.foldl (fun mm k => copyThroughWindow cr3 ptChild ptParent pages mm
        (numPagKernel + numPagCode + k)) mm).fault = false →
      let copied := ks.foldl (fun mm k => copyThroughWindow cr3 ptChild ptParent
        pages mm (numPagKernel + numPagCode + k)) mm
      let places := ks.map fun k => (ptParent, pagLogInitData + k + pages)
      mm.fault = false ∧ Edit ptParent (fun p => (ptParent, p) ∈ places) mm copied ∧
        copied.holdings = mm.holdings.vacateAll places := by
    intro ks
    induction ks with
    | nil => exact fun mm noFault => ⟨noFault, .refl _ _ _, rfl⟩
    | cons k ks inductionHypothesis =>
        intro mm noFault
        simp only [List.foldl_cons] at noFault ⊢
        obtain ⟨middle, rest, vacated⟩ := inductionHypothesis _ noFault
        obtain ⟨before, one, emptied⟩ := copyThroughWindow_spec cr3 ptChild
          ptParent pages mm (numPagKernel + numPagCode + k) middle
        refine ⟨before, ?_, ?_⟩
        · have oneWide : Edit ptParent (fun p => (ptParent, p) ∈
              (k :: ks).map fun k => (ptParent, pagLogInitData + k + pages))
              mm _ :=
            one.mono fun p same => by
              rw [same]
              exact List.mem_cons_self
          apply oneWide.trans
          apply rest.mono
          intro p member
          exact List.mem_cons_of_mem _ member
        · rw [vacated, emptied]
          rfl
  exact rounds (List.range pages) mm noFault

end Memory

end Zeos
