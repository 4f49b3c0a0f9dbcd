import Zeos.Console.Chunks

/-!
# Messages

`printk` of `io.c`, which prints up to a NUL, and `perror` of `libc.c`, which gives the
length of each text to `write` as a constant.
-/

namespace Zeos

open Library

universe u

variable {Place : Type u} [DecidableEq Place]

/-! ## The functions -/

/-- `for (i = 0; string[i]; i++) printc(string[i]);`.  `i++` has no value behind `INT_MAX`. -/
def printkFrom (locate : UInt32 → Option Place) (string : UInt32) (i : Nat)
    (t : Terminal Place) : Option (Terminal Place) :=
  (load locate (string + UInt32.ofNat i) t.memory).bind fun c =>
    if c ≠ 0 then
      (t.printc locate c).bind fun t =>
        if i + 1 ≤ 2147483647 then printkFrom locate string (i + 1) t else none
    else
      some t
termination_by 2147483647 - i

def Terminal.printk (locate : UInt32 → Option Place) (string : UInt32) (t : Terminal Place) :
    Option (Terminal Place) :=
  printkFrom locate string 0 t

/-- The arguments of `write` in the cases of `perror`. -/
def errorText (errno : Int) : String × Int32 :=
  if errno = 9 then ("Bad file number\n", 16)
  else if errno = 13 then ("Permission denied\n", 18)
  else if errno = 14 then ("Bad address\n", 12)
  else if errno = 22 then ("Invalid argument\n", 17)
  else if errno = 38 then ("Function not implemented\n", 25)
  else ("Error not defined\n", 18)

/-- The characters of a literal, without its NUL. -/
def literalBytes (text : String) : List UInt8 :=
  text.toList.map fun c => UInt8.ofNat c.toNat

/-- `perror`, with the addresses that the linker gives the literals. -/
def Terminal.perror (locate : UInt32 → Option Place) (frames : Nat → CallFrames)
    (bufferTmp : UInt32) (literal : String → UInt32) (errno : Int) (t : Terminal Place) :
    Option (Int × Terminal Place) :=
  t.sysWrite locate frames bufferTmp 1 (literal (errorText errno).1) (errorText errno).2

/-- A string of C that is not on the screen. -/
structure Printable (locate : UInt32 → Option Place) (memory : Place → UInt8) (string : UInt32)
    (cs : List UInt8) : Prop where
  bytes : loadBytes locate cs.length string memory = some cs
  nonzero : ∀ c ∈ cs, c ≠ 0
  nul : load locate (string + UInt32.ofNat cs.length) memory = some 0
  offScreen : ∀ k ≤ cs.length, ∀ place, locate (string + UInt32.ofNat k) = some place →
    ¬ ScreenPlace locate place

variable {locate : UInt32 → Option Place} {t : Terminal Place} {d : Display}
  {frames : Nat → CallFrames} {string bufferTmp : UInt32} {cs : List UInt8} {i below : Nat}

/-! ## `printk` -/

/-- Printing the rest of a string. -/
theorem printkFrom_prints (screen : ScreenMapped locate) : ∀ {cs : List UInt8} {i : Nat}
    {t : Terminal Place} {d : Display}, i + cs.length ≤ 2147483647 →
      Printable locate t.memory (string + UInt32.ofNat i) cs → Shows locate t d →
      ∃ after, printkFrom locate string i t = some after ∧
        Prints locate (ScreenPlace locate) t d cs after
  | [], i, t, d, _, held, shows => by
      have nul := held.nul
      rw [List.length_nil, add_ofNat_zero] at nul
      refine ⟨t, ?_, Prints.none shows⟩
      rw [printkFrom, nul]
      rfl
  | c :: cs, i, t, d, bounded, held, shows => by
      have loaded := held.bytes
      have nul := held.nul
      rw [List.length_cons] at bounded loaded nul
      rw [loadBytes, Option.bind_eq_some_iff] at loaded
      obtain ⟨head, first, loaded⟩ := loaded
      obtain ⟨rest, loadedRest, whole⟩ := Option.map_eq_some_iff.mp loaded
      obtain ⟨rfl, rfl⟩ := List.cons_eq_cons.mp whole
      obtain ⟨middle, printed, prints⟩ := printc_prints screen shows head
      have nonzero : head ≠ 0 := held.nonzero head List.mem_cons_self
      have later : Printable locate middle.memory (string + UInt32.ofNat (i + 1)) rest := by
        refine ⟨?_, fun c member => held.nonzero c (List.mem_cons_of_mem head member), ?_, ?_⟩
        · rw [← add_ofNat_succ, prints.loadBytes_kept ?_, loadedRest]
          intro k few place located
          rw [add_succ_ofNat] at located
          exact held.offScreen (k + 1) (by rw [List.length_cons]; omega) place located
        · rw [← add_ofNat_succ, add_succ_ofNat]
          refine (load_congr fun place located => prints.beside place ?_).trans nul
          exact held.offScreen (rest.length + 1) (Nat.le_refl _) place located
        · intro k few place located
          rw [← add_ofNat_succ, add_succ_ofNat] at located
          exact held.offScreen (k + 1) (by rw [List.length_cons]; omega) place located
      obtain ⟨after, ended, others⟩ := printkFrom_prints screen
        (by omega : i + 1 + rest.length ≤ 2147483647) later prints.shown
      refine ⟨after, ?_, prints.append others⟩
      rw [printkFrom, first, Option.bind_some, if_pos nonzero, printed, Option.bind_some,
        if_pos (by omega)]
      exact ended

/-- `printk` ends and prints a string up to its NUL, with the display that `sys_write` gives
the same characters. -/
theorem printk_prints (screen : ScreenMapped locate) (bounded : cs.length ≤ 2147483647)
    (held : Printable locate t.memory string cs) (shows : Shows locate t d) :
    ∃ after, t.printk locate string = some after ∧
      Prints locate (ScreenPlace locate) t d cs after := by
  refine printkFrom_prints screen (by omega) ?_ shows
  rw [add_ofNat_zero]
  exact held

/-! ## `perror` -/

/-- The constants are the lengths of the texts. -/
theorem errorText_length (errno : Int) :
    (literalBytes (errorText errno).1).length = (errorText errno).2.toInt.toNat ∧
      0 ≤ (errorText errno).2.toInt ∧ (errorText errno).2.toInt ≤ 25 := by
  unfold errorText
  split_ifs <;> decide +kernel

/-- `perror` prints the whole text and nothing behind it, whatever `errno` is. -/
theorem perror_prints {literal : String → UInt32} {errno : Int} {text : List UInt8}
    (chosen : text = literalBytes (errorText errno).1)
    (separate : Separate locate (literal (errorText errno).1) bufferTmp text.length below)
    (within : ∀ i, (frames i).Within below) (notNull : literal (errorText errno).1 ≠ 0)
    (held : loadBytes locate text.length (literal (errorText errno).1) t.memory = some text)
    (shows : Shows locate t d) :
    ∃ after, t.perror locate frames bufferTmp literal errno =
        some ((text.length : Int), after) ∧
      Prints locate (WriteReaches locate bufferTmp text.length below) t d text after := by
  obtain ⟨length, nonneg, small⟩ := errorText_length errno
  rw [← chosen] at length
  rw [length] at separate held
  obtain ⟨cs, after, loaded, ended, prints, _⟩ := sysWrite_prints separate within notNull nonneg
    (by omega) shows
  have same : text = cs := Option.some.inj (held.symm.trans loaded)
  subst same
  refine ⟨after, ?_, ?_⟩
  · have whole : ((text.length : Nat) : Int) = (errorText errno).2.toInt := by omega
    rw [whole]
    exact ended
  · rw [length]
    exact prints

end Zeos
