import Mathlib

/-!
# Reading the clock

`do_div` of `utils.c`, which divides 64 bits by 32 with two divisions that the processor
has, and `get_ticks`, which divides the time stamp counter with it.
-/

namespace Zeos

/-! ## Division digit by digit -/

section Digits

variable {radix high low base : Nat}

/-- A remainder before the next digit gives a quotient of one digit. -/
theorem digit_lt_radix (isDigit : low < radix) (isRest : high < base) :
    (high * radix + low) / base < radix := by
  apply Nat.div_lt_of_lt_mul
  calc
    high * radix + low < high * radix + radix := Nat.add_lt_add_left isDigit _
    _ = (high + 1) * radix := (Nat.succ_mul high radix).symm
    _ ≤ base * radix := Nat.mul_le_mul_right radix isRest

theorem carry_digit (high low radix base : Nat) :
    high * radix + low =
      base * (high / base * radix) + (high % base * radix + low) := by
  calc
    high * radix + low = (base * (high / base) + high % base) * radix + low := by
      rw [Nat.div_add_mod]
    _ = base * (high / base * radix) + (high % base * radix + low) := by ring

theorem div_digits (positive : 0 < base) : (high * radix + low) / base =
    high / base * radix + (high % base * radix + low) / base := by
  rw [carry_digit high low radix base, Nat.mul_add_div positive]

theorem mod_digits :
    (high * radix + low) % base = (high % base * radix + low) % base := by
  rw [carry_digit high low radix base, Nat.mul_add_mod]

end Digits

/-! ## `do_div` -/

/-- The instruction `divl` with the dividend in `%edx:%eax`: the quotient and the
remainder, or a divide error if the operand is 0 or the quotient has more than 32 bits. -/
def divl (edx eax operand : UInt32) : Option (UInt32 × UInt32) :=
  let dividend := edx.toNat * 2 ^ 32 + eax.toNat
  if operand = 0 ∨ 2 ^ 32 ≤ dividend / operand.toNat then none
  else some (UInt32.ofNat (dividend / operand.toNat),
    UInt32.ofNat (dividend % operand.toNat))

/-- `__upper`, the high word of the dividend of `divl`. -/
def divUpper (high base : UInt32) : UInt32 :=
  if high ≠ 0 then high % base else high

/-- `__high`, the high word of the quotient. -/
def divHigh (high base : UInt32) : UInt32 :=
  if high ≠ 0 then high / base else high

/-- `do_div(n, base)`: what it leaves in `n`, and its value. -/
def doDiv (n : UInt64) (base : UInt32) : Option (UInt64 × UInt32) :=
  let low := n.toUInt32
  let high := (n >>> 32).toUInt32
  (divl (divUpper high base) low base).map fun (low, mod) =>
    (((divHigh high base).toUInt64 <<< 32) + low.toUInt64, mod)

variable {n : UInt64} {edx eax high base : UInt32}

theorem toNat_pos (nonzero : base ≠ 0) : 0 < base.toNat :=
  Nat.pos_of_ne_zero fun zero => nonzero (UInt32.toNat_inj.mp zero)

/-- There is no divide error if the high word of the dividend is below the operand. -/
theorem divl_of_lt (below : edx < base) :
    divl edx eax base =
      some (UInt32.ofNat ((edx.toNat * 2 ^ 32 + eax.toNat) / base.toNat),
        UInt32.ofNat ((edx.toNat * 2 ^ 32 + eax.toNat) % base.toNat)) := by
  have isRest : edx.toNat < base.toNat := below
  have nonzero : base ≠ 0 := by
    intro zero
    rw [zero] at isRest
    exact absurd isRest (Nat.not_lt_zero edx.toNat)
  have fits := digit_lt_radix eax.toNat_lt isRest
  apply if_neg
  intro error
  rcases error with zero | large
  · exact nonzero zero
  · exact absurd fits (Nat.not_lt.mpr large)

theorem divUpper_toNat (high base : UInt32) :
    (divUpper high base).toNat = high.toNat % base.toNat := by
  unfold divUpper
  split_ifs with nonzero
  · exact UInt32.toNat_mod high base
  · rw [not_not.mp nonzero]
    exact (Nat.zero_mod base.toNat).symm

theorem divHigh_toNat (high base : UInt32) :
    (divHigh high base).toNat = high.toNat / base.toNat := by
  unfold divHigh
  split_ifs with nonzero
  · exact UInt32.toNat_div high base
  · rw [not_not.mp nonzero]
    exact (Nat.zero_div base.toNat).symm

theorem divUpper_lt (nonzero : base ≠ 0) : divUpper high base < base := by
  have rest := Nat.mod_lt high.toNat (toNat_pos nonzero)
  rw [← divUpper_toNat] at rest
  exact rest

theorem toNat_words (high low : UInt32) :
    ((high.toUInt64 <<< 32) + low.toUInt64).toNat = high.toNat * 2 ^ 32 + low.toNat := by
  have highFits := high.toNat_lt
  have lowFits := low.toNat_lt
  rw [UInt64.toNat_add, UInt64.toNat_shiftLeft, Nat.shiftLeft_eq]
  simp only [UInt32.toNat_toUInt64]
  change (high.toNat * 2 ^ 32 % 2 ^ 64 + low.toNat) % 2 ^ 64 = _
  omega

theorem words_toNat (n : UInt64) :
    n.toNat = (n >>> 32).toUInt32.toNat * 2 ^ 32 + n.toUInt32.toNat := by
  have fits := n.toNat_lt
  rw [UInt64.toNat_toUInt32, UInt64.toNat_toUInt32, UInt64.toNat_shiftRight,
    Nat.shiftRight_eq_div_pow]
  change n.toNat = n.toNat / 2 ^ 32 % 2 ^ 32 * 2 ^ 32 + n.toNat % 2 ^ 32
  omega

/-- The quotient and the remainder are those of the whole dividend. -/
theorem doDiv_spec (n : UInt64) (nonzero : base ≠ 0) :
    ∃ quotient rest, doDiv n base = some (quotient, rest) ∧
      quotient.toNat = n.toNat / base.toNat ∧ rest.toNat = n.toNat % base.toNat := by
  have positive := toNat_pos nonzero
  have whole := words_toNat n
  refine ⟨_, _, by rw [doDiv, divl_of_lt (divUpper_lt nonzero), Option.map_some], ?_, ?_⟩
  · have fits := digit_lt_radix n.toUInt32.toNat_lt
      (Nat.mod_lt (n >>> 32).toUInt32.toNat positive)
    rw [toNat_words, divHigh_toNat, divUpper_toNat, UInt32.toNat_ofNat_of_lt' fits, whole]
    exact (div_digits positive).symm
  · have fits : ((n >>> 32).toUInt32.toNat % base.toNat * 2 ^ 32 + n.toUInt32.toNat) %
        base.toNat < 2 ^ 32 := (Nat.mod_lt _ positive).trans base.toNat_lt
    rw [divUpper_toNat, UInt32.toNat_ofNat_of_lt' fits, whole]
    exact mod_digits.symm

/-! ## `get_ticks` -/

/-- `CYCLESPERTICK`. -/
def cyclesPerTick : UInt32 := 109000

/-- `get_ticks` with `tsc` in the time stamp counter. -/
def getTicks (tsc : UInt64) : Option UInt32 :=
  let eax := tsc.toUInt32
  let edx := (tsc >>> 32).toUInt32
  let ticks := (edx.toUInt64 <<< 32) + eax.toUInt64
  (doDiv ticks cyclesPerTick).map fun (ticks, _) => ticks.toUInt32

theorem rdtsc_words (tsc : UInt64) :
    ((tsc >>> 32).toUInt32.toUInt64 <<< 32) + tsc.toUInt32.toUInt64 = tsc := by
  apply UInt64.toNat_inj.mp
  rw [toNat_words, ← words_toNat]

theorem getTicks_spec (tsc : UInt64) : ∃ ticks, getTicks tsc = some ticks ∧
    ticks.toNat = tsc.toNat / cyclesPerTick.toNat % 2 ^ 32 := by
  obtain ⟨quotient, rest, divided, quotientIs, _⟩ :=
    doDiv_spec tsc (by decide : cyclesPerTick ≠ 0)
  refine ⟨quotient.toUInt32, ?_, ?_⟩
  · rw [getTicks, rdtsc_words, divided, Option.map_some]
  · rw [UInt64.toNat_toUInt32, quotientIs]

/-- The difference of two readings that the accounting functions add. -/
theorem getTicks_sub {first second : UInt64} (later : first ≤ second)
    (few : second.toNat / cyclesPerTick.toNat - first.toNat / cyclesPerTick.toNat < 2 ^ 32) :
    ∃ before after, getTicks first = some before ∧ getTicks second = some after ∧
      (after - before).toNat =
        second.toNat / cyclesPerTick.toNat - first.toNat / cyclesPerTick.toNat := by
  obtain ⟨before, readFirst, beforeIs⟩ := getTicks_spec first
  obtain ⟨after, readSecond, afterIs⟩ := getTicks_spec second
  have ordered : first.toNat / cyclesPerTick.toNat ≤ second.toNat / cyclesPerTick.toNat :=
    Nat.div_le_div_right later
  refine ⟨before, after, readFirst, readSecond, ?_⟩
  rw [UInt32.toNat_sub, beforeIs, afterIs]
  omega

theorem do_div_exact :
    (∀ (n : UInt64) (base : UInt32), base ≠ 0 →
      divUpper (n >>> 32).toUInt32 base < base ∧
      ∃ quotient rest, doDiv n base = some (quotient, rest) ∧
        quotient.toNat = n.toNat / base.toNat ∧ rest.toNat = n.toNat % base.toNat) ∧
    (∀ tsc, ∃ ticks, getTicks tsc = some ticks ∧
      ticks.toNat = tsc.toNat / cyclesPerTick.toNat % 2 ^ 32) ∧
    ∀ first second : UInt64, first ≤ second →
      second.toNat / cyclesPerTick.toNat - first.toNat / cyclesPerTick.toNat < 2 ^ 32 →
      ∃ before after, getTicks first = some before ∧ getTicks second = some after ∧
        (after - before).toNat =
          second.toNat / cyclesPerTick.toNat - first.toNat / cyclesPerTick.toNat :=
  ⟨fun n _ nonzero => ⟨divUpper_lt nonzero, doDiv_spec n nonzero⟩, getTicks_spec,
    fun _ _ later few => getTicks_sub later few⟩

/-- A high word of 2 over the base 3, and two readings on either side of 2³² ticks. -/
theorem do_div_exact_carried :
    (∃ quotient rest, doDiv 0x2FFFFFFFF 3 = some (quotient, rest) ∧
      quotient.toNat = 0x2FFFFFFFF / 3 ∧ rest.toNat = 0x2FFFFFFFF % 3) ∧
    ∃ before after, getTicks 468151435263999 = some before ∧
      getTicks 468151435264000 = some after ∧ (after - before).toNat = 1 := by
  refine ⟨(do_div_exact.1 0x2FFFFFFFF 3 (by decide)).2, ?_⟩
  exact do_div_exact.2.2 468151435263999 468151435264000 (by decide) (by decide)

end Zeos
