import Mathlib
import Zeos.Library.Bytes

/-!
# Copying through a translation

Bytes are kept at places, and `locate` gives the place that an address stands
for, if there is one.  Moving a field reads it whole before it is written.  If
the source and the destination have no place in common, a loop that moves
fields of any widths copies byte by byte.
-/

namespace Zeos.Library

universe u

variable {Place : Type u}

/-- A load of one byte. -/
def load (locate : UInt32 → Option Place) (address : UInt32) (memory : Place → UInt8) :
    Option UInt8 :=
  (locate address).map memory

def loadBytes (locate : UInt32 → Option Place) :
    Nat → UInt32 → (Place → UInt8) → Option (List UInt8)
  | 0, _, _ => some []
  | count + 1, address, memory =>
      (load locate address memory).bind fun byte =>
        (loadBytes locate count (address + 1) memory).map fun bytes => byte :: bytes

/-- Every address of a block has a place. -/
def Mapped (locate : UInt32 → Option Place) (address : UInt32) (size : Nat) : Prop :=
  ∀ k < size, (locate (address + UInt32.ofNat k)).isSome

/-- The destination's places are distinct and none of them is the source's. -/
structure Apart (locate : UInt32 → Option Place) (start dest : UInt32) (size : Nat) :
    Prop where
  distinct : ∀ i < size, ∀ j < size, i ≠ j →
    locate (dest + UInt32.ofNat i) ≠ locate (dest + UInt32.ofNat j)
  disjoint : ∀ i < size, ∀ j < size,
    locate (start + UInt32.ofNat i) ≠ locate (dest + UInt32.ofNat j)

/-- The first `count` bytes are copied and nothing else is changed. -/
structure CopiedBytes (locate : UInt32 → Option Place) (start dest : UInt32)
    (before : Place → UInt8) (count : Nat) (after : Place → UInt8) : Prop where
  copied : ∀ k < count, load locate (dest + UInt32.ofNat k) after =
    load locate (start + UInt32.ofNat k) before
  beside : ∀ place, (∀ k < count, locate (dest + UInt32.ofNat k) ≠ some place) →
    after place = before place

variable {locate : UInt32 → Option Place} {start dest address : UInt32}
  {before memory after : Place → UInt8} {width count size : Nat}

/-! ## Loads -/

theorem add_ofNat_add (address : UInt32) (count width : Nat) :
    address + UInt32.ofNat count + UInt32.ofNat width =
      address + UInt32.ofNat (count + width) := by
  rw [UInt32.add_assoc, ← UInt32.ofNat_add]

theorem add_ofNat_succ (address : UInt32) (k : Nat) :
    address + UInt32.ofNat k + 1 = address + UInt32.ofNat (k + 1) :=
  add_ofNat_add address k 1

theorem add_succ_ofNat (address : UInt32) (k : Nat) :
    address + 1 + UInt32.ofNat k = address + UInt32.ofNat (k + 1) := by
  rw [UInt32.add_assoc, UInt32.add_comm 1, ← UInt32.add_assoc, add_ofNat_succ]

theorem add_ofNat_zero (address : UInt32) : address + UInt32.ofNat 0 = address :=
  UInt32.add_zero _

theorem toNat_add_ofNat {k : Nat} (small : address.toNat + k < 2 ^ 32) :
    (address + UInt32.ofNat k).toNat = address.toNat + k := by
  rw [UInt32.toNat_add, UInt32.toNat_ofNat', Nat.mod_eq_of_lt (by omega : k < 2 ^ 32),
    Nat.mod_eq_of_lt small]

theorem mapped_succ : Mapped locate address (width + 1) ↔
    (locate address).isSome ∧ Mapped locate (address + 1) width := by
  constructor
  · intro mapped
    constructor
    · have first := mapped 0 (Nat.succ_pos _)
      rw [add_ofNat_zero] at first
      exact first
    · intro k few
      rw [add_succ_ofNat]
      exact mapped _ (by omega)
  · rintro ⟨first, rest⟩ k few
    cases k with
    | zero =>
        rw [add_ofNat_zero]
        exact first
    | succ k =>
        rw [← add_succ_ofNat]
        exact rest k (by omega)

theorem mapped_add : Mapped locate address (width + count) ↔
    Mapped locate address width ∧ Mapped locate (address + UInt32.ofNat width) count := by
  constructor
  · intro mapped
    constructor
    · exact fun k few => mapped k (by omega)
    · intro k few
      rw [add_ofNat_add]
      exact mapped _ (by omega)
  · rintro ⟨first, rest⟩ k few
    by_cases early : k < width
    · exact first k early
    · have behind := rest (k - width) (by omega)
      rw [add_ofNat_add, show width + (k - width) = k by omega] at behind
      exact behind

theorem length_loadBytes : ∀ {width : Nat} {address : UInt32} {bytes : List UInt8},
    loadBytes locate width address memory = some bytes → bytes.length = width
  | 0, _, _, loaded => by
      rw [← Option.some.inj loaded]
      rfl
  | width + 1, address, bytes, loaded => by
      rw [loadBytes, Option.bind_eq_some_iff] at loaded
      obtain ⟨byte, -, loaded⟩ := loaded
      obtain ⟨rest, loaded, whole⟩ := Option.map_eq_some_iff.mp loaded
      rw [← whole, List.length_cons, length_loadBytes loaded]

theorem loadBytes_isSome (memory : Place → UInt8) : ∀ {width : Nat} {address : UInt32},
    (loadBytes locate width address memory).isSome ↔ Mapped locate address width
  | 0, _ => ⟨fun _ _ few => absurd few (Nat.not_lt_zero _), fun _ => rfl⟩
  | width + 1, address => by
      rw [mapped_succ, ← loadBytes_isSome memory, loadBytes, load]
      cases locate address with
      | none => simp
      | some place => simp

theorem loadBytes_of_load : ∀ {bytes : List UInt8} {address : UInt32},
    (∀ k byte, bytes[k]? = some byte →
      load locate (address + UInt32.ofNat k) memory = some byte) →
      loadBytes locate bytes.length address memory = some bytes
  | [], _, _ => rfl
  | byte :: bytes, address, loaded => by
      have first := loaded 0 byte rfl
      rw [add_ofNat_zero] at first
      have rest : loadBytes locate bytes.length (address + 1) memory = some bytes := by
        apply loadBytes_of_load
        intro k other found
        rw [add_succ_ofNat]
        exact loaded (k + 1) other found
      rw [List.length_cons, loadBytes, first, Option.bind_some, rest, Option.map_some]

theorem load_congr (same : ∀ place, locate address = some place → after place = memory place) :
    load locate address after = load locate address memory := by
  unfold load
  cases located : locate address with
  | none => rfl
  | some place => exact congrArg some (same place located)

theorem loadBytes_congr : ∀ {width : Nat} {address other : UInt32},
    (∀ k < width, load locate (address + UInt32.ofNat k) after =
      load locate (other + UInt32.ofNat k) memory) →
    loadBytes locate width address after = loadBytes locate width other memory
  | 0, _, _, _ => rfl
  | width + 1, address, other, same => by
      have first := same 0 (Nat.succ_pos _)
      rw [add_ofNat_zero, add_ofNat_zero] at first
      have later : loadBytes locate width (address + 1) after =
          loadBytes locate width (other + 1) memory := by
        apply loadBytes_congr
        intro k few
        rw [add_succ_ofNat, add_succ_ofNat]
        exact same (k + 1) (Nat.succ_lt_succ few)
      rw [loadBytes, loadBytes, first, later]

/-- A byte of a block that is read. -/
theorem load_of_loadBytes : ∀ {width : Nat} {address : UInt32} {bytes : List UInt8} {k : Nat}
    {byte : UInt8}, loadBytes locate width address memory = some bytes → bytes[k]? = some byte →
      load locate (address + UInt32.ofNat k) memory = some byte
  | 0, _, _, _, _, loaded, found => by
      rw [← Option.some.inj loaded] at found
      cases found
  | width + 1, address, bytes, k, byte, loaded, found => by
      rw [loadBytes, Option.bind_eq_some_iff] at loaded
      obtain ⟨head, first, loaded⟩ := loaded
      obtain ⟨rest, loaded, whole⟩ := Option.map_eq_some_iff.mp loaded
      rw [← whole] at found
      cases k with
      | zero =>
          rw [add_ofNat_zero, first]
          exact found
      | succ k =>
          rw [← add_succ_ofNat]
          exact load_of_loadBytes loaded found

/-- The first bytes of a block that is read, and the others. -/
theorem loadBytes_split {bytes : List UInt8}
    (loaded : loadBytes locate bytes.length address memory = some bytes) (n : Nat) :
    loadBytes locate (bytes.take n).length address memory = some (bytes.take n) ∧
      loadBytes locate (bytes.drop n).length (address + UInt32.ofNat n) memory =
        some (bytes.drop n) := by
  constructor
  · apply loadBytes_of_load
    intro k byte found
    rw [List.getElem?_take] at found
    split_ifs at found
    exact load_of_loadBytes loaded found
  · apply loadBytes_of_load
    intro k byte found
    rw [List.getElem?_drop] at found
    rw [add_ofNat_add]
    exact load_of_loadBytes loaded found

/-! ## Copies -/

namespace CopiedBytes

theorem none (start dest : UInt32) (before : Place → UInt8) :
    CopiedBytes locate start dest before 0 before where
  copied k few := absurd few (Nat.not_lt_zero k)
  beside _ _ := rfl

/-- The bytes of the source are not written. -/
theorem source (done : CopiedBytes locate start dest before count after)
    (apart : Apart locate start dest size) (part : count ≤ size) {i : Nat}
    (inside : i < size) : load locate (start + UInt32.ofNat i) after =
      load locate (start + UInt32.ofNat i) before := by
  unfold load
  cases located : locate (start + UInt32.ofNat i) with
  | none => rfl
  | some place =>
      have unchanged : after place = before place := by
        apply done.beside
        intro k few same
        exact apart.disjoint i inside k (by omega) (located.trans same.symm)
      rw [Option.map_some, Option.map_some, unchanged]

theorem loadBytes_source (done : CopiedBytes locate start dest before count after)
    (apart : Apart locate start dest size) (part : count ≤ size) :
    ∀ {width place : Nat}, place + width ≤ size →
      loadBytes locate width (start + UInt32.ofNat place) after =
        loadBytes locate width (start + UInt32.ofNat place) before
  | 0, _, _ => rfl
  | width + 1, place, inside => by
      rw [loadBytes, loadBytes, done.source apart part (by omega), add_ofNat_succ,
        loadBytes_source done apart part (by omega)]

/-- What the whole block holds in the end is determined. -/
theorem unique {other : Place → UInt8}
    (first : CopiedBytes locate start dest before size after)
    (second : CopiedBytes locate start dest before size other) : after = other := by
  funext place
  by_cases written : ∃ k < size, locate (dest + UInt32.ofNat k) = some place
  · obtain ⟨k, few, located⟩ := written
    have same := (first.copied k few).trans (second.copied k few).symm
    rw [load, load, located] at same
    exact Option.some.inj same
  · have untouched : ∀ k < size, locate (dest + UInt32.ofNat k) ≠ some place :=
      fun k few located => written ⟨k, few, located⟩
    rw [first.beside place untouched, second.beside place untouched]

end CopiedBytes

/-! ## Moves -/

variable [DecidableEq Place]

/-- A store of one byte. -/
def store (locate : UInt32 → Option Place) (address : UInt32) (value : UInt8)
    (memory : Place → UInt8) : Option (Place → UInt8) :=
  (locate address).map fun place => Function.update memory place value

def storeBytes (locate : UInt32 → Option Place) :
    List UInt8 → UInt32 → (Place → UInt8) → Option (Place → UInt8)
  | [], _, memory => some memory
  | byte :: bytes, address, memory =>
      (store locate address byte memory).bind (storeBytes locate bytes (address + 1))

/-- `*q = *p` for a field of `width` bytes. -/
def move (locate : UInt32 → Option Place) (width : Nat) (start dest : UInt32)
    (memory : Place → UInt8) : Option (Place → UInt8) :=
  ((loadBytes locate width start memory).map leValue).bind fun value =>
    storeBytes locate (leBytes width value) dest memory

/-- Moving a field moves its bytes. -/
theorem move_eq : move locate width start dest memory =
    (loadBytes locate width start memory).bind fun bytes =>
      storeBytes locate bytes dest memory := by
  unfold move
  cases loaded : loadBytes locate width start memory with
  | none => rfl
  | some bytes =>
      have same := leBytes_leValue bytes
      rw [length_loadBytes loaded] at same
      rw [Option.map_some, Option.bind_some, Option.bind_some, same]

theorem storeBytes_isSome : ∀ {bytes : List UInt8} {address : UInt32}
    {memory : Place → UInt8}, (storeBytes locate bytes address memory).isSome ↔
      Mapped locate address bytes.length
  | [], _, _ => ⟨fun _ _ few => absurd few (Nat.not_lt_zero _), fun _ => rfl⟩
  | byte :: bytes, address, memory => by
      rw [List.length_cons, mapped_succ, storeBytes, store]
      cases locate address with
      | none => simp
      | some place =>
          rw [Option.map_some, Option.bind_some, storeBytes_isSome]
          simp

/-- Only the block is written. -/
theorem storeBytes_beside : ∀ {bytes : List UInt8} {address : UInt32}
    {memory after : Place → UInt8} {place : Place},
    storeBytes locate bytes address memory = some after →
    (∀ k < bytes.length, locate (address + UInt32.ofNat k) ≠ some place) →
      after place = memory place
  | [], _, _, _, _, stored, _ => by
      rw [← Option.some.inj stored]
  | byte :: bytes, address, memory, after, place, stored, untouched => by
      rw [storeBytes, Option.bind_eq_some_iff] at stored
      obtain ⟨middle, first, rest⟩ := stored
      obtain ⟨written, located, change⟩ := Option.map_eq_some_iff.mp first
      have elsewhere : place ≠ written := by
        have missed := untouched 0 (Nat.succ_pos _)
        rw [add_ofNat_zero, located] at missed
        exact fun same => missed (congrArg some same.symm)
      have later : ∀ k < bytes.length, locate (address + 1 + UInt32.ofNat k) ≠ some place := by
        intro k few
        rw [add_succ_ofNat]
        exact untouched (k + 1) (Nat.succ_lt_succ few)
      rw [storeBytes_beside rest later, ← change, Function.update_of_ne elsewhere]

/-- What is stored at distinct places is there. -/
theorem storeBytes_loadBytes : ∀ {bytes : List UInt8} {address : UInt32}
    {memory after : Place → UInt8},
    (∀ i < bytes.length, ∀ j < bytes.length, i ≠ j →
      locate (address + UInt32.ofNat i) ≠ locate (address + UInt32.ofNat j)) →
    storeBytes locate bytes address memory = some after →
      loadBytes locate bytes.length address after = some bytes
  | [], _, _, _, _, _ => rfl
  | byte :: bytes, address, memory, after, distinct, stored => by
      rw [storeBytes, Option.bind_eq_some_iff] at stored
      obtain ⟨middle, first, rest⟩ := stored
      obtain ⟨written, located, change⟩ := Option.map_eq_some_iff.mp first
      have later : ∀ i < bytes.length, ∀ j < bytes.length, i ≠ j →
          locate (address + 1 + UInt32.ofNat i) ≠ locate (address + 1 + UInt32.ofNat j) := by
        intro i few j small different
        rw [add_succ_ofNat, add_succ_ofNat]
        exact distinct (i + 1) (Nat.succ_lt_succ few) (j + 1) (Nat.succ_lt_succ small)
          fun same => different (Nat.succ.inj same)
      have untouched : ∀ k < bytes.length,
          locate (address + 1 + UInt32.ofNat k) ≠ some written := by
        intro k few same
        rw [add_succ_ofNat] at same
        apply distinct (k + 1) (Nat.succ_lt_succ few) 0 (Nat.succ_pos _) (Nat.succ_ne_zero k)
        rw [add_ofNat_zero, located, same]
      have kept : load locate address after = some byte := by
        rw [load, located, Option.map_some, storeBytes_beside rest untouched, ← change,
          Function.update_self]
      rw [List.length_cons, loadBytes, kept, Option.bind_some,
        storeBytes_loadBytes later rest, Option.map_some]

theorem move_isSome : (move locate width start dest memory).isSome ↔
    Mapped locate start width ∧ Mapped locate dest width := by
  rw [move_eq, ← loadBytes_isSome memory]
  cases loaded : loadBytes locate width start memory with
  | none => simp
  | some bytes =>
      rw [Option.bind_some, storeBytes_isSome, length_loadBytes loaded]
      simp

/-! ## One move after the other -/

namespace CopiedBytes

/-- The next byte. -/
theorem store_next (done : CopiedBytes locate start dest before count after)
    (apart : Apart locate start dest size) (part : count < size)
    (mapped : Mapped locate dest size) {value : UInt8}
    (read : load locate (start + UInt32.ofNat count) before = some value) :
    ∃ last, store locate (dest + UInt32.ofNat count) value after = some last ∧
      CopiedBytes locate start dest before (count + 1) last := by
  obtain ⟨place, located⟩ := Option.isSome_iff_exists.mp (mapped count part)
  have stored : store locate (dest + UInt32.ofNat count) value after =
      some (Function.update after place value) := by
    rw [store, located, Option.map_some]
  refine ⟨_, stored, ?_, ?_⟩
  · intro k few
    by_cases new : k = count
    · rw [new, read, load, located, Option.map_some, Function.update_self]
    · rw [← done.copied k (by omega), load, load]
      cases earlier : locate (dest + UInt32.ofNat k) with
      | none => rfl
      | some other =>
          have apartPlaces : other ≠ place := by
            intro same
            apply apart.distinct k (by omega) count part new
            rw [earlier, located, same]
          rw [Option.map_some, Option.map_some, Function.update_of_ne apartPlaces]
  · intro other untouched
    have elsewhere : other ≠ place := by
      intro same
      apply untouched count (by omega)
      rw [located, same]
    rw [Function.update_of_ne elsewhere]
    exact done.beside other fun k few => untouched k (by omega)

/-- The next bytes. -/
theorem storeBytes_next (apart : Apart locate start dest size)
    (mapped : Mapped locate dest size) :
    ∀ {width count : Nat} {bytes : List UInt8} {after : Place → UInt8},
      CopiedBytes locate start dest before count after → count + width ≤ size →
      loadBytes locate width (start + UInt32.ofNat count) before = some bytes →
      ∃ last, storeBytes locate bytes (dest + UInt32.ofNat count) after = some last ∧
        CopiedBytes locate start dest before (count + width) last
  | 0, count, bytes, after, done, _, read => by
      rw [← Option.some.inj read]
      exact ⟨after, rfl, done⟩
  | width + 1, count, bytes, after, done, part, read => by
      rw [loadBytes, Option.bind_eq_some_iff] at read
      obtain ⟨byte, first, read⟩ := read
      obtain ⟨rest, read, whole⟩ := Option.map_eq_some_iff.mp read
      rw [add_ofNat_succ] at read
      obtain ⟨middle, stored, more⟩ := done.store_next apart (by omega) mapped first
      obtain ⟨last, others, all⟩ := storeBytes_next apart mapped more (by omega) read
      refine ⟨last, ?_, ?_⟩
      · rw [← whole, storeBytes, stored, Option.bind_some, add_ofNat_succ]
        exact others
      · rw [Nat.add_right_comm] at all
        exact all

/-- The next field. -/
theorem move_next (done : CopiedBytes locate start dest before count after)
    (width : Nat) (apart : Apart locate start dest size) (part : count + width ≤ size)
    (readable : Mapped locate start size) (writable : Mapped locate dest size) :
    ∃ last, move locate width (start + UInt32.ofNat count)
        (dest + UInt32.ofNat count) after = some last ∧
      CopiedBytes locate start dest before (count + width) last := by
  have mapped : Mapped locate (start + UInt32.ofNat count) width :=
    (mapped_add.mp fun k few => readable k (by omega)).2
  obtain ⟨bytes, read⟩ := Option.isSome_iff_exists.mp
    ((loadBytes_isSome before).mpr mapped)
  obtain ⟨last, stored, all⟩ := storeBytes_next apart writable done part read
  refine ⟨last, ?_, all⟩
  rw [move_eq, done.loadBytes_source apart (by omega) part, read, Option.bind_some]
  exact stored

end CopiedBytes

/-- A move writes its destination only. -/
theorem move_beside {place : Place} (moved : move locate width start dest memory = some after)
    (untouched : ∀ k < width, locate (dest + UInt32.ofNat k) ≠ some place) :
    after place = memory place := by
  rw [move_eq, Option.bind_eq_some_iff] at moved
  obtain ⟨bytes, loaded, stored⟩ := moved
  rw [← length_loadBytes loaded] at untouched
  exact storeBytes_beside stored untouched

end Zeos.Library
