import Mathlib
import Zeos.Library.Transfers

/-!
# The screen

`printc` and `printc_xy` of `io.c` on linear memory, and a renderer that knows only
cells and a cursor.
-/

namespace Zeos

open Library

universe u

variable {Place : Type u}

def numColumns : Nat := 80

def numRows : Nat := 25

instance : NeZero numColumns := ⟨by decide⟩

instance : NeZero numRows := ⟨by decide⟩

def newline : UInt8 := 10

/-- The attribute and the character of a cell: `(Word) (c & 0x00FF) | 0x0200`. -/
def attributed (c : UInt8) : UInt16 := c.toUInt16 ||| 0x0200

/-- Linear memory, the cursor of `io.c` and the bytes sent to port `0xe9`.
`stores` is history: the addresses of the words stored by `printc`. -/
structure Terminal (Place : Type u) where
  memory : Place → UInt8
  x : UInt8
  y : UInt8
  port : List UInt8
  stores : List UInt32

namespace Terminal

/-- `screen` in `printc`. -/
def screenAddress (t : Terminal Place) : UInt32 :=
  0xb8000 + UInt32.ofNat (t.y.toNat * numColumns + t.x.toNat) * 2

/-- The next line. -/
def lineFeed (t : Terminal Place) : Terminal Place :=
  { t with x := 0, y := UInt8.ofNat ((t.y.toNat + 1) % numRows) }

/-- `if (++x >= NUM_COLUMNS)` and its branch. -/
def advance (t : Terminal Place) : Terminal Place :=
  let t := { t with x := t.x + 1 }
  if t.x.toNat ≥ numColumns then t.lineFeed else t

/-- `printc`. -/
def printc [DecidableEq Place] (locate : UInt32 → Option Place) (t : Terminal Place) (c : UInt8) :
    Option (Terminal Place) :=
  let t := { t with port := t.port ++ [c] }
  if c = newline then
    some t.lineFeed
  else
    let screen := t.screenAddress
    let t := t.advance
    (storeBytes locate (leBytes 2 (attributed c).toNat) screen t.memory).map fun stored =>
      { t with memory := stored, stores := t.stores ++ [screen] }

/-- `printc_xy`. -/
def printcXy [DecidableEq Place] (locate : UInt32 → Option Place) (t : Terminal Place) (mx my c : UInt8) :
    Option (Terminal Place) :=
  let cx := t.x
  let cy := t.y
  (printc locate { t with x := mx, y := my } c).map fun t => { t with x := cx, y := cy }

end Terminal

/-! ## The renderer -/

/-- Cells by row and column, and the cursor. -/
structure Display where
  cell : Fin numRows × Fin numColumns → UInt16
  x : Fin numColumns
  y : Fin numRows

namespace Display

/-- The next line; the first one follows the last. -/
def lineFeed (d : Display) : Display := { d with x := 0, y := d.y + 1 }

/-- The next cell, at the end of a line the first one of the next line. -/
def advance (d : Display) : Display :=
  if d.x.val + 1 = numColumns then d.lineFeed else { d with x := d.x + 1 }

def paint (d : Display) (place : Fin numRows × Fin numColumns) (c : UInt8) : Display :=
  { d with cell := Function.update d.cell place (attributed c) }

def put (d : Display) (c : UInt8) : Display :=
  if c = newline then d.lineFeed else (d.paint (d.y, d.x) c).advance

def render (d : Display) (cs : List UInt8) : Display := cs.foldl put d

@[simp]
theorem advance_cell (d : Display) : d.advance.cell = d.cell := by
  unfold advance
  split_ifs <;> rfl

@[simp]
theorem paint_self (d : Display) (place : Fin numRows × Fin numColumns) (c : UInt8) :
    (d.paint place c).cell place = attributed c :=
  Function.update_self _ _ _

@[simp]
theorem paint_of_ne (d : Display) {place other : Fin numRows × Fin numColumns}
    (different : other ≠ place) (c : UInt8) : (d.paint place c).cell other = d.cell other :=
  Function.update_of_ne different _ _

theorem paint_advance (d : Display) (place : Fin numRows × Fin numColumns) (c : UInt8) :
    (d.paint place c).advance = d.advance.paint place c := by
  by_cases lineEnd : d.x.val + 1 = numColumns
  · have painted : (d.paint place c).x.val + 1 = numColumns := lineEnd
    rw [advance, advance, if_pos painted, if_pos lineEnd]
    rfl
  · have painted : ¬ (d.paint place c).x.val + 1 = numColumns := lineEnd
    rw [advance, advance, if_neg painted, if_neg lineEnd]
    rfl

theorem render_append (d : Display) (cs more : List UInt8) :
    d.render (cs ++ more) = (d.render cs).render more :=
  List.foldl_append

end Display

/-! ## Cells in memory -/

/-- The address of a cell. -/
def cellAddress (place : Fin numRows × Fin numColumns) : UInt32 :=
  0xb8000 + UInt32.ofNat (place.1.val * numColumns + place.2.val) * 2

/-- The 80 by 25 cells of two bytes. -/
def OnScreen (address : UInt32) : Prop :=
  0xb8000 ≤ address.toNat ∧ address.toNat < 0xb8000 + 2 * (numColumns * numRows)

/-- The screen's addresses are mapped to places of their own. -/
structure ScreenMapped (locate : UInt32 → Option Place) : Prop where
  mapped : ∀ address, OnScreen address → (locate address).isSome
  distinct : ∀ address other, OnScreen address → OnScreen other →
    locate address = locate other → address = other

/-- What is in memory is what the renderer displays. -/
structure Shows (locate : UInt32 → Option Place) (t : Terminal Place) (d : Display) : Prop where
  x : t.x.toNat = d.x.val
  y : t.y.toNat = d.y.val
  cell : ∀ place, loadBytes locate 2 (cellAddress place) t.memory =
    some (leBytes 2 (d.cell place).toNat)

variable {locate : UInt32 → Option Place} {t after last : Terminal Place} {d : Display}
  {cs : List UInt8} {c : UInt8}

theorem cellAddress_toNat (place : Fin numRows × Fin numColumns) :
    (cellAddress place).toNat = 0xb8000 + 2 * (place.1.val * numColumns + place.2.val) := by
  have row := place.1.isLt
  have column := place.2.isLt
  unfold numRows at row
  unfold numColumns at column
  unfold cellAddress numColumns
  rw [UInt32.toNat_add, UInt32.toNat_mul, UInt32.toNat_ofNat',
    show UInt32.toNat 2 = 2 from rfl, show UInt32.toNat 0xb8000 = 0xb8000 from rfl]
  omega

theorem cellAddress_byte (place : Fin numRows × Fin numColumns) {k : Nat} (few : k < 2) :
    (cellAddress place + UInt32.ofNat k).toNat = (cellAddress place).toNat + k := by
  apply toNat_add_ofNat
  have row := place.1.isLt
  have column := place.2.isLt
  unfold numRows at row
  unfold numColumns at column
  rw [cellAddress_toNat]
  unfold numColumns
  omega

theorem cellAddress_onScreen (place : Fin numRows × Fin numColumns) {k : Nat} (few : k < 2) :
    OnScreen (cellAddress place + UInt32.ofNat k) := by
  have row := place.1.isLt
  have column := place.2.isLt
  unfold OnScreen
  rw [cellAddress_byte place few, cellAddress_toNat]
  unfold numRows numColumns at *
  omega

/-- Different bytes of cells have different addresses. -/
theorem cellAddress_inj {place other : Fin numRows × Fin numColumns} {i j : Nat} (few : i < 2)
    (small : j < 2)
    (same : cellAddress place + UInt32.ofNat i = cellAddress other + UInt32.ofNat j) :
    place = other ∧ i = j := by
  have value := congrArg UInt32.toNat same
  rw [cellAddress_byte place few, cellAddress_byte other small, cellAddress_toNat,
    cellAddress_toNat] at value
  have column := place.2.isLt
  have otherColumn := other.2.isLt
  unfold numColumns at *
  refine ⟨Prod.ext (Fin.ext ?_) (Fin.ext ?_), ?_⟩ <;> omega

theorem length_leBytes : ∀ count value : Nat, (leBytes count value).length = count
  | 0, _ => rfl
  | count + 1, value => congrArg (· + 1) (length_leBytes count (value / 256))

/-- A word stored to a cell is the cell's, and the other cells are as before. -/
theorem storeCell [DecidableEq Place] (memory : Place → UInt8) (screen : ScreenMapped locate)
    (place : Fin numRows × Fin numColumns) (word : UInt16) :
    ∃ stored, storeBytes locate (leBytes 2 word.toNat) (cellAddress place) memory = some stored ∧
      loadBytes locate 2 (cellAddress place) stored = some (leBytes 2 word.toNat) ∧
      (∀ other, other ≠ place → loadBytes locate 2 (cellAddress other) stored =
        loadBytes locate 2 (cellAddress other) memory) ∧
      ∀ p, (∀ k < 2, locate (cellAddress place + UInt32.ofNat k) ≠ some p) →
        stored p = memory p := by
  have length := length_leBytes 2 word.toNat
  have mapped : Mapped locate (cellAddress place) (leBytes 2 word.toNat).length := by
    intro k few
    rw [length] at few
    exact screen.mapped _ (cellAddress_onScreen place few)
  have stores : (storeBytes locate (leBytes 2 word.toNat) (cellAddress place) memory).isSome :=
    storeBytes_isSome.mpr mapped
  obtain ⟨stored, ended⟩ := Option.isSome_iff_exists.mp stores
  have beside : ∀ p, (∀ k < 2, locate (cellAddress place + UInt32.ofNat k) ≠ some p) →
      stored p = memory p := by
    intro p untouched
    rw [← length] at untouched
    exact storeBytes_beside ended untouched
  refine ⟨stored, ended, ?_, ?_, beside⟩
  · have loaded := storeBytes_loadBytes ?_ ended
    · rw [length] at loaded
      exact loaded
    · intro i few j small different same
      rw [length] at few small
      have sameAddress := screen.distinct _ _ (cellAddress_onScreen place few)
        (cellAddress_onScreen place small) same
      exact different (cellAddress_inj few small sameAddress).2
  · intro other different
    apply loadBytes_congr
    intro j small
    apply load_congr
    intro p located
    apply beside p
    intro k few same
    have sameAddress := screen.distinct _ _ (cellAddress_onScreen place few)
      (cellAddress_onScreen other small) (same.trans located.symm)
    exact different (cellAddress_inj few small sameAddress).1.symm

theorem leBytes_toUInt16 {bytes : List UInt8} (length : bytes.length = 2) :
    leBytes 2 (UInt16.ofNat (leValue bytes)).toNat = bytes := by
  have small : leValue bytes < 2 ^ 16 := by
    match bytes, length with
    | [low, high], _ =>
        have lowByte := low.toNat_lt
        have highByte := high.toNat_lt
        unfold leValue leValue leValue
        omega
  rw [UInt16.toNat_ofNat', Nat.mod_eq_of_lt small, ← length]
  exact leBytes_leValue bytes

/-- A cursor inside the screen shows some display. -/
theorem exists_shows (screen : ScreenMapped locate) (column : t.x.toNat < numColumns)
    (row : t.y.toNat < numRows) : ∃ d, Shows locate t d := by
  have cells : ∀ place, ∃ word : UInt16, loadBytes locate 2 (cellAddress place) t.memory =
      some (leBytes 2 word.toNat) := by
    intro place
    have mapped : Mapped locate (cellAddress place) 2 :=
      fun k few => screen.mapped _ (cellAddress_onScreen place few)
    obtain ⟨bytes, loaded⟩ :=
      Option.isSome_iff_exists.mp ((loadBytes_isSome t.memory).mpr mapped)
    refine ⟨UInt16.ofNat (leValue bytes), ?_⟩
    rw [leBytes_toUInt16 (length_loadBytes loaded), loaded]
  choose cell loaded using cells
  exact ⟨⟨cell, ⟨t.x.toNat, column⟩, ⟨t.y.toNat, row⟩⟩, rfl, rfl, loaded⟩

/-! ## Printing -/

/-- The places of the cells. -/
def ScreenPlace (locate : UInt32 → Option Place) (place : Place) : Prop :=
  ∃ address, OnScreen address ∧ locate address = some place

/-- What printing `cs` does: the characters go to the port and to the display in order,
words are stored to cells only, and memory is changed where it is `reached`. -/
structure Prints (locate : UInt32 → Option Place) (reached : Place → Prop) (t : Terminal Place)
    (d : Display) (cs : List UInt8) (after : Terminal Place) : Prop where
  port : after.port = t.port ++ cs
  shown : Shows locate after (d.render cs)
  stores : ∃ addresses, after.stores = t.stores ++ addresses ∧
    ∀ address ∈ addresses, OnScreen address ∧ OnScreen (address + 1)
  beside : ∀ place, ¬ reached place → after.memory place = t.memory place

namespace Prints

variable {reached more : Place → Prop} {later : List UInt8}

theorem none (shows : Shows locate t d) : Prints locate reached t d [] t where
  port := (List.append_nil _).symm
  shown := shows
  stores := ⟨[], (List.append_nil _).symm, fun _ member => absurd member List.not_mem_nil⟩
  beside _ _ := rfl

theorem append (first : Prints locate reached t d cs after)
    (second : Prints locate reached after (d.render cs) later last) :
    Prints locate reached t d (cs ++ later) last where
  port := by rw [second.port, first.port, List.append_assoc]
  shown := by
    rw [Display.render_append]
    exact second.shown
  stores := by
    obtain ⟨addresses, stored, inside⟩ := first.stores
    obtain ⟨others, storedLater, insideLater⟩ := second.stores
    refine ⟨addresses ++ others, ?_, ?_⟩
    · rw [storedLater, stored, List.append_assoc]
    · intro address member
      rcases List.mem_append.mp member with early | late
      · exact inside address early
      · exact insideLater address late
  beside place away := (second.beside place away).trans (first.beside place away)

/-- A block beside what is reached is as before. -/
theorem loadBytes_kept (prints : Prints locate reached t d cs after) {address : UInt32}
    {width : Nat} (away : ∀ k < width, ∀ place,
      locate (address + UInt32.ofNat k) = some place → ¬ reached place) :
    loadBytes locate width address after.memory = loadBytes locate width address t.memory := by
  apply loadBytes_congr
  intro k few
  apply load_congr
  exact fun place located => prints.beside place (away k few place located)

end Prints

theorem lineFeed_y (same : t.y.toNat = d.y.val) :
    t.lineFeed.y.toNat = (d.y + 1 : Fin numRows).val := by
  have row := d.y.isLt
  unfold Terminal.lineFeed
  rw [Fin.val_add, same, UInt8.toNat_ofNat']
  unfold numRows at *
  rw [show ((1 : Fin 25) : Nat) = 1 from rfl]
  omega

theorem screenAddress_eq (shows : Shows locate t d) :
    t.screenAddress = cellAddress (d.y, d.x) := by
  unfold Terminal.screenAddress cellAddress
  rw [shows.x, shows.y]

theorem advance_eq (same : t.x.toNat = d.x.val) : t.advance =
    if d.x.val + 1 = numColumns then { t with x := t.x + 1 }.lineFeed
    else { t with x := t.x + 1 } := by
  have column := d.x.isLt
  have stepped : (t.x + 1).toNat = d.x.val + 1 := by
    rw [UInt8.toNat_add, same, show UInt8.toNat 1 = 1 from rfl]
    unfold numColumns at *
    omega
  unfold Terminal.advance
  dsimp only
  rw [stepped]
  split_ifs with past lineEnd lineEnd
  · rfl
  · omega
  · omega
  · rfl

/-- The cursor moves as the renderer's. -/
theorem advance_cursor (shows : Shows locate t d) :
    t.advance.x.toNat = d.advance.x.val ∧ t.advance.y.toNat = d.advance.y.val := by
  have column := d.x.isLt
  rw [advance_eq shows.x]
  unfold Display.advance
  split_ifs with lineEnd
  · exact ⟨rfl, lineFeed_y shows.y⟩
  · refine ⟨?_, shows.y⟩
    change (t.x + 1).toNat = (d.x + 1).val
    rw [UInt8.toNat_add, shows.x, Fin.val_add, show UInt8.toNat 1 = 1 from rfl,
      show ((1 : Fin numColumns) : Nat) = 1 from rfl]
    unfold numColumns at *
    omega

theorem advance_rest (t : Terminal Place) : t.advance.memory = t.memory ∧
    t.advance.port = t.port ∧ t.advance.stores = t.stores := by
  unfold Terminal.advance
  dsimp only
  split_ifs
  · exact ⟨rfl, rfl, rfl⟩
  · exact ⟨rfl, rfl, rfl⟩

/-- One character. -/
theorem printc_prints [DecidableEq Place] (screen : ScreenMapped locate)
    (shows : Shows locate t d) (c : UInt8) : ∃ after, t.printc locate c = some after ∧
      Prints locate (ScreenPlace locate) t d [c] after := by
  have rendered : d.render [c] = d.put c := rfl
  unfold Terminal.printc
  dsimp only
  by_cases isNewline : c = newline
  · rw [if_pos isNewline]
    have put : d.put c = d.lineFeed := if_pos isNewline
    refine ⟨_, rfl, rfl, ?_, ⟨[], (List.append_nil _).symm, ?_⟩, fun _ _ => rfl⟩
    · rw [rendered, put]
      exact ⟨rfl, lineFeed_y shows.y, shows.cell⟩
    · exact fun _ member => absurd member List.not_mem_nil
  · rw [if_neg isNewline]
    have put : d.put c = (d.paint (d.y, d.x) c).advance := if_neg isNewline
    obtain ⟨stored, ended, painted, others, beside⟩ :=
      storeCell t.memory screen (d.y, d.x) (attributed c)
    have logged : Shows locate { t with port := t.port ++ [c] } d :=
      ⟨shows.x, shows.y, shows.cell⟩
    obtain ⟨x, y⟩ := advance_cursor logged
    obtain ⟨memory, port, stores⟩ := advance_rest { t with port := t.port ++ [c] }
    have address := screenAddress_eq logged
    rw [memory, address, ended, Option.map_some]
    refine ⟨_, rfl, port, ?_, ⟨[cellAddress (d.y, d.x)], ?_, ?_⟩, ?_⟩
    · rw [rendered, put, Display.paint_advance]
      refine ⟨x, y, fun place => ?_⟩
      by_cases here : place = (d.y, d.x)
      · subst here
        rw [Display.paint_self]
        exact painted
      · rw [Display.paint_of_ne _ here, Display.advance_cell]
        exact (others place here).trans (shows.cell place)
    · rw [stores]
    · intro address member
      rw [List.mem_singleton.mp member]
      have first := cellAddress_onScreen (d.y, d.x) Nat.zero_lt_two
      rw [add_ofNat_zero] at first
      exact ⟨first, cellAddress_onScreen (d.y, d.x) Nat.one_lt_two⟩
    · intro place away
      apply beside
      intro k few located
      exact away ⟨_, cellAddress_onScreen _ few, located⟩

/-! ## The corner -/

/-- `printc_xy (0, 0, c)` changes the top-left cell. -/
theorem printcXy_corner [DecidableEq Place] (screen : ScreenMapped locate)
    (shows : Shows locate t d) (visible : c ≠ newline) :
    ∃ after, t.printcXy locate 0 0 c = some after ∧ Shows locate after (d.paint (0, 0) c) ∧
      after.stores = t.stores ++ [0xb8000] ∧
      ∀ place, (∀ k < 2, locate (0xb8000 + UInt32.ofNat k) ≠ some place) →
        after.memory place = t.memory place := by
  have corner : cellAddress (0, 0) = 0xb8000 := rfl
  obtain ⟨stored, ended, painted, others, beside⟩ :=
    storeCell t.memory screen (0, 0) (attributed c)
  have home : ({ t with x := 0, y := 0, port := t.port ++ [c] } : Terminal Place).screenAddress =
      0xb8000 := rfl
  obtain ⟨memory, port, stores⟩ :=
    advance_rest ({ t with x := 0, y := 0, port := t.port ++ [c] } : Terminal Place)
  unfold Terminal.printcXy Terminal.printc
  dsimp only
  rw [if_neg visible, home, memory, stores]
  rw [corner] at ended beside
  rw [ended]
  refine ⟨_, rfl, ⟨shows.x, shows.y, fun place => ?_⟩, rfl, beside⟩
  by_cases here : place = (0, 0)
  · subst here
    rw [Display.paint_self]
    exact painted
  · rw [Display.paint_of_ne _ here]
    exact (others place here).trans (shows.cell place)

/-- Calls that write to the screen. -/
inductive Output where
  | printc (c : UInt8)
  /-- `printc_xy (0, 0, c)`. -/
  | corner (c : UInt8)

namespace Output

def perform [DecidableEq Place] (locate : UInt32 → Option Place) (t : Terminal Place) :
    Output → Option (Terminal Place)
  | .printc c => t.printc locate c
  | .corner c => t.printcXy locate 0 0 c

/-- The calls one after the other. -/
def performAll [DecidableEq Place] (locate : UInt32 → Option Place) :
    List Output → Terminal Place → Option (Terminal Place)
  | [], t => some t
  | output :: outputs, t => (output.perform locate t).bind (performAll locate outputs)

/-- The characters given to `printc` itself. -/
def chars : List Output → List UInt8
  | [] => []
  | .printc c :: outputs => c :: chars outputs
  | .corner _ :: outputs => chars outputs

/-- No newline is written to the corner. -/
def Visible : Output → Prop
  | .printc _ => True
  | .corner c => c ≠ newline

end Output

/-- Displays that differ in the top-left cell only. -/
structure SameBesideCorner (d e : Display) : Prop where
  x : d.x = e.x
  y : d.y = e.y
  cell : ∀ place, place ≠ (0, 0) → d.cell place = e.cell place

namespace SameBesideCorner

variable {d e : Display}

theorem lineFeed (same : SameBesideCorner d e) : SameBesideCorner d.lineFeed e.lineFeed where
  x := rfl
  y := congrArg (· + 1) same.y
  cell := same.cell

theorem advance (same : SameBesideCorner d e) : SameBesideCorner d.advance e.advance := by
  unfold Display.advance
  rw [← same.x]
  split_ifs with lineEnd
  · exact same.lineFeed
  · exact ⟨rfl, same.y, same.cell⟩

theorem paint (same : SameBesideCorner d e) (place : Fin numRows × Fin numColumns) (c : UInt8) :
    SameBesideCorner (d.paint place c) (e.paint place c) where
  x := same.x
  y := same.y
  cell other notCorner := by
    by_cases here : other = place
    · rw [here, Display.paint_self, Display.paint_self]
    · rw [Display.paint_of_ne _ here, Display.paint_of_ne _ here]
      exact same.cell other notCorner

theorem put (same : SameBesideCorner d e) (c : UInt8) :
    SameBesideCorner (d.put c) (e.put c) := by
  unfold Display.put
  rw [← same.x, ← same.y]
  split_ifs with isNewline
  · exact same.lineFeed
  · exact (same.paint _ c).advance

theorem corner (same : SameBesideCorner d e) (c : UInt8) :
    SameBesideCorner (d.paint (0, 0) c) e where
  x := same.x
  y := same.y
  cell other notCorner := by
    rw [Display.paint_of_ne _ notCorner]
    exact same.cell other notCorner

end SameBesideCorner

/-- Between calls of `printc`, writing to the corner changes nothing else of what is
displayed. -/
theorem performAll_shows [DecidableEq Place] (screen : ScreenMapped locate) {e : Display}
    {outputs : List Output} (visible : ∀ output ∈ outputs, output.Visible)
    (shows : Shows locate t d) (same : SameBesideCorner d e) :
    ∃ after shown, Output.performAll locate outputs t = some after ∧
      Shows locate after shown ∧ SameBesideCorner shown (e.render (Output.chars outputs)) := by
  induction outputs generalizing t d e with
  | nil => exact ⟨t, d, rfl, shows, same⟩
  | cons output outputs inductionHypothesis =>
      have rest := fun other member => visible other (List.mem_cons_of_mem output member)
      rw [Output.performAll]
      cases output with
      | printc c =>
          obtain ⟨middle, printed, prints⟩ := printc_prints screen shows c
          rw [Output.perform, printed, Option.bind_some]
          exact inductionHypothesis rest prints.shown (same.put c)
      | corner c =>
          obtain ⟨middle, printed, shown, _, _⟩ :=
            printcXy_corner screen shows (visible _ List.mem_cons_self)
          rw [Output.perform, printed, Option.bind_some]
          exact inductionHypothesis rest shown (same.corner c)

end Zeos
