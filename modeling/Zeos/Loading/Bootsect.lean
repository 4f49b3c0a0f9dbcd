import Mathlib.Computability.StateTransition
import Mathlib.Tactic.SplitIfs

/-!
# The loader

`read_it` of `bootsect.S`: it reads whole tracks where it can, but never over
the end of a segment of 64 KB, until the segment it would read to next lies
behind `syssize` paragraphs.  Registers and variables are 16 bits wide.
-/

namespace Zeos.Loading

open StateTransition

/-- `SEC_PISTA`. -/
def sectors : Nat := 18

def setupsecs : Nat := 0

def sysseg : Nat := 0x1000

/-- The segment in which the loader itself runs. -/
def initseg : Nat := 0x9000

/-- `sub` on 16 bits. -/
def sub16 (value other : Nat) : Nat := (2 ^ 16 + value - other) % 2 ^ 16

theorem sub16_eq {value other : Nat} (order : other ≤ value) (word : value < 2 ^ 16) :
    sub16 value other = value - other := by
  unfold sub16
  rw [Nat.add_sub_assoc order, Nat.add_mod_left, Nat.mod_eq_of_lt (by omega)]

/-- `shl` by nine on 16 bits: sectors to bytes. -/
def shl9 (value : Nat) : Nat := (value <<< 9) % 2 ^ 16

/-- The variables of the loader, the segment and the offset of the next read,
and the memory by physical address. -/
structure Loader where
  es : Nat
  bx : Nat
  sread : Nat
  head : Nat
  track : Nat
  memory : Nat → UInt8

/-- `int 0x13` with `ah = 2`: it reads `al` sectors from sector `cl` on, which
are counted from one, to `address`.  A cylinder has two tracks of `sectors`. -/
def int13 (floppy : Nat → UInt8) (al ch cl dh address : Nat) (memory : Nat → UInt8)
    (place : Nat) : UInt8 :=
  if address ≤ place ∧ place < address + 512 * al then
    floppy (512 * ((ch * 2 + dh) * sectors + (cl - 1)) + (place - address))
  else
    memory place

namespace Loader

/-- `es:bx`. -/
def address (s : Loader) : Nat := 16 * s.es + s.bx

/-- `read_track`: the low bytes of the variables go into the registers. -/
def readTrack (floppy : Nat → UInt8) (ax : Nat) (s : Loader) : Loader :=
  { s with
    memory := int13 floppy (ax % 2 ^ 8) (s.track % 2 ^ 8) ((s.sread + 1) % 2 ^ 8)
      (s.head % 2) s.address s.memory }

/-- How many sectors are read, from `ok1_read` on: the rest of the track, or what
is left of the segment. -/
def nextCount (s : Loader) : Nat :=
  let ax := sub16 sectors s.sread
  let cx := shl9 ax + s.bx
  if cx < 2 ^ 16 ∨ cx % 2 ^ 16 = 0 then ax else sub16 0 s.bx >>> 9

/-- From `ok2_read` on: the sector, the head and the track after the read. -/
def advance (cx : Nat) (s : Loader) : Loader :=
  let ax := (cx + s.sread) % 2 ^ 16
  if ax = sectors then
    let other := sub16 1 s.head
    { s with
      sread := 0
      head := other
      track := if other = 0 then (s.track + 1) % 2 ^ 16 else s.track }
  else
    { s with sread := ax }

/-- From `ok3_read` on: `es:bx` after the read. -/
def moveOn (cx : Nat) (s : Loader) : Loader :=
  if s.bx + shl9 cx < 2 ^ 16 then { s with bx := s.bx + shl9 cx }
  else { s with es := (s.es + 0x1000) % 2 ^ 16, bx := 0 }

/-- One round from `rp_read` on; `none` is the `ret`. -/
def rpRead (floppy : Nat → UInt8) (syssize : Nat) (s : Loader) : Option Loader :=
  if sub16 s.es sysseg ≤ syssize then
    let ax := s.nextCount
    some (((s.readTrack floppy ax).advance ax).moveOn ax)
  else
    none

/-- The loader at `rp_read` for the first time. -/
def start (memory : Nat → UInt8) : Loader where
  es := sysseg
  bx := 0
  sread := setupsecs + 1
  head := 0
  track := 0
  memory := memory

/-! ## What the loader has read -/

/-- The loader after it read the `count` sectors behind the boot sector. -/
structure Loaded (floppy : Nat → UInt8) (count : Nat) (s : Loader) : Prop where
  es : s.es = sysseg + 0x1000 * (count / 128)
  bx : s.bx = 512 * (count % 128)
  position : (s.track * 2 + s.head) * sectors + s.sread = count + 1
  head : s.head < 2
  sread : s.sread < sectors
  memory : ∀ i < 512 * count, s.memory (0x10000 + i) = floppy (512 + i)

variable {floppy : Nat → UInt8} {syssize count target : Nat} {s t : Loader}

theorem loaded_start (floppy : Nat → UInt8) (memory : Nat → UInt8) :
    Loaded floppy 0 (start memory) where
  es := rfl
  bx := rfl
  position := rfl
  head := Nat.zero_lt_two
  sread := (by decide : setupsecs + 1 < sectors)
  memory i few := absurd few (by omega)

namespace Loaded

theorem address_eq (loaded : Loaded floppy count s) :
    s.address = 0x10000 + 512 * count := by
  rw [address, loaded.es, loaded.bx, sysseg]
  omega

/-- A read ends with the track or with the segment. -/
theorem nextCount_eq (loaded : Loaded floppy count s) :
    s.nextCount = min (sectors - s.sread) (128 - count % 128) := by
  have bx := loaded.bx
  have sread := loaded.sread
  unfold sectors at sread
  have rest : sub16 sectors s.sread = sectors - s.sread :=
    sub16_eq (by unfold sectors; omega) (by decide)
  have bytes : shl9 (sectors - s.sread) = 512 * (sectors - s.sread) := by
    unfold shl9 sectors
    rw [Nat.shiftLeft_eq]
    omega
  have left : sub16 0 s.bx >>> 9 = (65536 - s.bx) % 65536 / 512 := by
    rw [sub16, Nat.shiftRight_eq_div_pow]
    rfl
  unfold nextCount
  dsimp only
  rw [rest, bytes, left, bx]
  unfold sectors
  split_ifs with fits <;> omega

theorem nextCount_bounds (loaded : Loaded floppy count s) :
    0 < s.nextCount ∧ s.nextCount ≤ 18 ∧ s.nextCount ≤ 128 - count % 128 := by
  have sread := loaded.sread
  rw [loaded.nextCount_eq]
  unfold sectors at sread ⊢
  omega

/-- The sectors of one read come from the place on the disk where the last read
ended. -/
theorem readTrack_memory (loaded : Loaded floppy count s) (few : count ≤ 1024)
    (place : Nat) :
    (s.readTrack floppy s.nextCount).memory place =
      if 0x10000 + 512 * count ≤ place ∧
          place < 0x10000 + 512 * (count + s.nextCount) then
        floppy (512 * (count + 1) + (place - (0x10000 + 512 * count)))
      else
        s.memory place := by
  obtain ⟨-, upper, -⟩ := loaded.nextCount_bounds
  have position := loaded.position
  have head := loaded.head
  have sread := loaded.sread
  unfold sectors at position sread
  have sector : (s.track % 2 ^ 8 * 2 + s.head % 2) * sectors +
      ((s.sread + 1) % 2 ^ 8 - 1) = count + 1 := by
    unfold sectors
    omega
  have whole : s.nextCount % 2 ^ 8 = s.nextCount := by omega
  change int13 floppy _ _ _ _ _ _ place = _
  unfold int13
  rw [sector, whole, loaded.address_eq, Nat.mul_add 512 count s.nextCount,
    Nat.add_assoc]

/-- What one round reads is the next part of the disk. -/
theorem round (loaded : Loaded floppy count s) (few : count ≤ 1024) :
    Loaded floppy (count + s.nextCount)
      (((s.readTrack floppy s.nextCount).advance s.nextCount).moveOn s.nextCount) := by
  obtain ⟨es, bx, position, head, sread, -⟩ := id loaded
  have counted := loaded.nextCount_eq
  obtain ⟨positive, upper, inside⟩ := loaded.nextCount_bounds
  have read := loaded.readTrack_memory few
  generalize s.nextCount = c at *
  unfold sectors at position sread counted
  have bytes : shl9 c = 512 * c := by
    rw [shl9, Nat.shiftLeft_eq]
    omega
  have memory : ∀ i < 512 * (count + c),
      (s.readTrack floppy c).memory (0x10000 + i) = floppy (512 + i) := by
    intro i few
    rw [read]
    split_ifs with new
    · congr 1
      omega
    · exact loaded.memory i (by omega)
  have placed : ∀ t : Loader, t.es = s.es → t.bx = s.bx →
      (t.track * 2 + t.head) * 18 + t.sread = count + c + 1 → t.head < 2 →
      t.sread < 18 → t.memory = (s.readTrack floppy c).memory →
      Loaded floppy (count + c) (t.moveOn c) := by
    intro t sameEs sameBx position head sread same
    unfold moveOn
    rw [bytes, sameBx, bx]
    split_ifs with fits
    · exact {
        es := by
          dsimp only
          rw [sameEs, es]
          omega
        bx := by
          dsimp only
          omega
        position := position
        head := head
        sread := sread
        memory := fun i few => by
          dsimp only
          rw [same]
          exact memory i few }
    · exact {
        es := by
          dsimp only
          rw [sameEs, es]
          unfold sysseg
          omega
        bx := by
          dsimp only
          omega
        position := position
        head := head
        sread := sread
        memory := fun i few => by
          dsimp only
          rw [same]
          exact memory i few }
  have track : (s.readTrack floppy c).track = s.track := rfl
  have side : (s.readTrack floppy c).head = s.head := rfl
  have first : (s.readTrack floppy c).sread = s.sread := rfl
  have other : sub16 1 s.head = 1 - s.head := sub16_eq (by omega) (by decide)
  have total : (c + s.sread) % 2 ^ 16 = c + s.sread := by omega
  unfold advance sectors
  dsimp only
  rw [track, side, first, other, total]
  split_ifs with trackEnd turned
  · have cylinder : (s.track + 1) % 2 ^ 16 = s.track + 1 := by omega
    refine placed _ rfl rfl ?_ (by dsimp only; omega) (by decide : 0 < 18) rfl
    dsimp only
    omega
  · refine placed _ rfl rfl ?_ (by dsimp only; omega) (by decide : 0 < 18) rfl
    dsimp only
    omega
  · refine placed _ rfl rfl ?_ head (by dsimp only; omega) rfl
    dsimp only
    omega

/-- The loader asks for the next segment as long as it begins within `syssize`
paragraphs. -/
theorem rpRead_eq (loaded : Loaded floppy count s) (syssize : Nat) (few : count ≤ 1024) :
    s.rpRead floppy syssize =
      if 0x1000 * (count / 128) ≤ syssize then
        some (((s.readTrack floppy s.nextCount).advance s.nextCount).moveOn s.nextCount)
      else
        none := by
  have paragraphs : sub16 s.es sysseg = 0x1000 * (count / 128) := by
    rw [loaded.es]
    unfold sub16 sysseg
    omega
  unfold rpRead
  rw [paragraphs]

/-- The loader reads on to the end of every segment that it begins. -/
theorem reaches (loaded : Loaded floppy count s) (syssize segments : Nat)
    (few : segments ≤ 8) (wanted : ∀ segment < segments, 0x1000 * segment ≤ syssize)
    (before : count ≤ 128 * segments) :
    ∃ t, Reaches (rpRead floppy syssize) s t ∧ Loaded floppy (128 * segments) t := by
  induction left : 128 * segments - count using Nat.strong_induction_on
    generalizing count s with
  | _ left inductionHypothesis =>
      by_cases done : count = 128 * segments
      · subst done
        exact ⟨s, .refl, loaded⟩
      · obtain ⟨positive, -, inside⟩ := loaded.nextCount_bounds
        have asked : 0x1000 * (count / 128) ≤ syssize := wanted _ (by omega)
        have taken := loaded.rpRead_eq syssize (by omega)
        rw [if_pos asked] at taken
        obtain ⟨t, later, whole⟩ := inductionHypothesis _ (by omega)
          (loaded.round (by omega)) (by omega) rfl
        exact ⟨t, .head taken later, whole⟩

/-- How far the loader comes if it stops before it reads over itself. -/
theorem of_reaches (loaded : Loaded floppy count s) (small : syssize < 0x8000)
    (few : count ≤ 128 * (syssize / 0x1000 + 1))
    (run : Reaches (rpRead floppy syssize) s t) :
    ∃ read, Loaded floppy read t ∧ read ≤ 128 * (syssize / 0x1000 + 1) := by
  induction run with
  | refl => exact ⟨count, loaded, few⟩
  | tail _ taken inductionHypothesis =>
      obtain ⟨read, before, bounded⟩ := inductionHypothesis
      obtain ⟨positive, -, inside⟩ := before.nextCount_bounds
      change rpRead floppy syssize _ = some _ at taken
      rw [before.rpRead_eq syssize (by omega)] at taken
      split_ifs at taken with asked
      rw [← Option.some.inj taken]
      exact ⟨_, before.round (by omega), by omega⟩

end Loaded

/-- No round of `read_it` stores at or above the loader's own segment. -/
def LoadsBelow (floppy : Nat → UInt8) (syssize : Nat) (memory : Nat → UInt8) : Prop :=
  ∀ s, Reaches (rpRead floppy syssize) (start memory) s →
    (s.rpRead floppy syssize).isSome → s.address + 512 * s.nextCount ≤ 16 * initseg

/-- The loader ends with whole segments in memory, if it does not read over
itself. -/
theorem eval_loaded (floppy memory : Nat → UInt8) (small : syssize < 0x8000) :
    ∃ last, last ∈ eval (rpRead floppy syssize) (start memory) ∧
      Loaded floppy (128 * (syssize / 0x1000 + 1)) last := by
  obtain ⟨last, run, whole⟩ := (loaded_start floppy memory).reaches
    syssize (syssize / 0x1000 + 1) (by omega) (by omega) (by omega)
  have few : 128 * (syssize / 0x1000 + 1) ≤ 1024 := by omega
  have behind : ¬0x1000 * (128 * (syssize / 0x1000 + 1) / 128) ≤ syssize := by omega
  have stopped : last.rpRead floppy syssize = none := by
    rw [whole.rpRead_eq syssize few, if_neg behind]
  exact ⟨last, mem_eval.mpr ⟨run, stopped⟩, whole⟩

/-- The loader reads over itself exactly if the image asks for it. -/
theorem loadsBelow_iff (floppy memory : Nat → UInt8) :
    LoadsBelow floppy syssize memory ↔ syssize < 0x8000 := by
  constructor
  · intro below
    by_contra large
    obtain ⟨s, run, whole⟩ := (loaded_start floppy memory).reaches
      syssize 8 (by decide) (by omega) (by decide)
    have taken := whole.rpRead_eq syssize (by decide)
    rw [if_pos (by omega)] at taken
    have bound := below s run (by rw [taken]; rfl)
    have positive := whole.nextCount_bounds.1
    rw [whole.address_eq] at bound
    unfold initseg at bound
    omega
  · intro small s run taken
    obtain ⟨read, whole, few⟩ := (loaded_start floppy memory).of_reaches small
      (Nat.zero_le _) run
    obtain ⟨-, -, inside⟩ := whole.nextCount_bounds
    rw [whole.rpRead_eq syssize (by omega)] at taken
    split_ifs at taken with asked
    · rw [whole.address_eq]
      unfold initseg
      omega
    · nomatch taken

end Loader

end Zeos.Loading
