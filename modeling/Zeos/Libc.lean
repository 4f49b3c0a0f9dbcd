import Mathlib

/-!
# Numbers as strings

`itoa` and `strlen` of `libc.c` over the bytes from the pointer they are given on.
-/

namespace Zeos

/-! ## The functions -/

/-- `while (a>0)`: what it leaves in `i` and in the buffer. -/
def itoaDigits (a : Int) (i : Nat) (b : Nat → UInt8) : Nat × (Nat → UInt8) :=
  if 0 < a then
    itoaDigits (a.tdiv 10) (i + 1)
      (Function.update b i (UInt8.ofNat (a.tmod 10 + 48).toNat))
  else
    (i, b)
termination_by a.toNat
decreasing_by
  have smaller := Int.tdiv_eq_ediv_of_nonneg (b := 10) (Int.le_of_lt ‹0 < a›)
  omega

/-- `for (i1=0; i1<i/2; i1++)`: the buffer after the rounds from `i1` on. -/
def itoaSwaps (i i1 : Nat) (b : Nat → UInt8) : Nat → UInt8 :=
  if i1 < i / 2 then
    let c := b i1
    let b' := Function.update b i1 (b (i - i1 - 1))
    itoaSwaps i (i1 + 1) (Function.update b' (i - i1 - 1) c)
  else
    b
termination_by i / 2 - i1

/-- `itoa`. -/
def itoa (a : Int) (b : Nat → UInt8) : Nat → UInt8 :=
  if a = 0 then
    Function.update (Function.update b 0 48) 1 0
  else
    let (i, b) := itoaDigits a 0 b
    Function.update (itoaSwaps i 0 b) i 0

/-- `while (a[i]!=0) i++`. -/
def strlenFrom (a : Nat → UInt8) : Nat → Nat → Option Nat
  | 0, _ => none
  | fuel + 1, i => if a i ≠ 0 then strlenFrom a fuel (i + 1) else some i

/-- `strlen`. -/
def strlen (a : Nat → UInt8) (fuel : Nat) : Option Nat :=
  strlenFrom a fuel 0

/-! ## Strings and numerals -/

/-- A buffer begins with the bytes of a string and a NUL. -/
structure CString (b : Nat → UInt8) (string : List UInt8) : Prop where
  bytes : ∀ k c, string[k]? = some c → b k = c ∧ c ≠ 0
  nul : b string.length = 0

/-- The number that a string of digits stands for. -/
def decimalValue (string : List UInt8) : Nat :=
  string.foldl (fun value c => 10 * value + (c.toNat - 48)) 0

/-- Digits without leading zeros. -/
structure Numeral (string : List UInt8) : Prop where
  digits : ∀ c ∈ string, 48 ≤ c.toNat ∧ c.toNat ≤ 57
  leading : string.head? = some 48 → string = [48]
  nonempty : string ≠ []

variable {a b b' : Nat → UInt8} {string other : List UInt8} {i i1 place fuel : Nat}

theorem CString.length_le (held : CString b string) (heldToo : CString b other) :
    string.length ≤ other.length := by
  by_contra longer
  obtain ⟨c, found⟩ : ∃ c, string[other.length]? = some c :=
    ⟨_, List.getElem?_eq_getElem (Nat.lt_of_not_le longer)⟩
  obtain ⟨same, nonzero⟩ := held.bytes _ c found
  exact nonzero (same.symm.trans heldToo.nul)

/-- A buffer holds one string. -/
theorem CString.unique (held : CString b string) (heldToo : CString b other) :
    string = other := by
  have length := Nat.le_antisymm (held.length_le heldToo) (heldToo.length_le held)
  apply List.ext_getElem length
  intro k inside insideToo
  have first := (held.bytes k _ (List.getElem?_eq_getElem inside)).1
  have second := (heldToo.bytes k _ (List.getElem?_eq_getElem insideToo)).1
  exact first.symm.trans second

theorem strlenFrom_spec (held : CString b string) (reached : i ≤ string.length)
    (enough : string.length < i + fuel) : strlenFrom b fuel i = some string.length := by
  induction fuel generalizing i with
  | zero => omega
  | succ fuel inductionHypothesis =>
      rcases Nat.lt_or_eq_of_le reached with inside | atEnd
      · obtain ⟨same, nonzero⟩ := held.bytes i _ (List.getElem?_eq_getElem inside)
        rw [strlenFrom, if_pos (same ▸ nonzero)]
        exact inductionHypothesis inside (by omega)
      · rw [strlenFrom, atEnd, if_neg (not_not.mpr held.nul)]

theorem strlen_spec (held : CString b string) (enough : string.length < fuel) :
    strlen b fuel = some string.length :=
  strlenFrom_spec held (Nat.zero_le _) (by omega)

/-! ## The loops of `itoa` -/

/-- The digits come out with the last one first. -/
theorem itoaDigits_spec (n : Nat) (i : Nat) (b : Nat → UInt8) :
    (itoaDigits n i b).1 = i + (Nat.digits 10 n).length ∧
    ∀ place, (itoaDigits n i b).2 place =
      if i ≤ place ∧ place < i + (Nat.digits 10 n).length then
        UInt8.ofNat ((Nat.digits 10 n).getD (place - i) 0 + 48)
      else b place := by
  induction n using Nat.strongRecOn generalizing i b with
  | _ n inductionHypothesis =>
      rw [itoaDigits]
      by_cases positive : 0 < n
      · have quotient : (n : Int).tdiv 10 = ((n / 10 : Nat) : Int) := by
          rw [Int.tdiv_eq_ediv_of_nonneg (Int.natCast_nonneg n)]
          omega
        have digit : ((n : Int).tmod 10 + 48).toNat = n % 10 + 48 := by
          rw [Int.tmod_eq_emod_of_nonneg (Int.natCast_nonneg n)]
          omega
        have split := Nat.digits_eq_cons_digits_div (b := 10) (by decide)
          (Nat.pos_iff_ne_zero.mp positive)
        obtain ⟨count, bytes⟩ := inductionHypothesis (n / 10) (by omega) (i + 1)
          (Function.update b i (UInt8.ofNat (n % 10 + 48)))
        rw [if_pos (by omega), quotient, digit, split, List.length_cons]
        refine ⟨by rw [count]; omega, ?_⟩
        intro place
        rw [bytes place]
        by_cases atFirst : place = i
        · subst atFirst
          rw [if_neg (by omega), if_pos (by omega), Function.update_self, Nat.sub_self]
          rfl
        · by_cases later : i + 1 ≤ place ∧ place < i + 1 + (Nat.digits 10 (n / 10)).length
          · rw [if_pos later, if_pos (by omega), show place - i = place - (i + 1) + 1 by omega]
            rfl
          · rw [if_neg later, if_neg (by omega), Function.update_of_ne atFirst]
      · have zero : n = 0 := by omega
        subst zero
        rw [if_neg (by omega), Nat.digits_zero]
        refine ⟨rfl, ?_⟩
        intro place
        exact (if_neg (by simp)).symm

/-- The swaps turn the part that they have not reached around. -/
theorem itoaSwaps_spec (i i1 : Nat) (b : Nat → UInt8) (place : Nat) :
    itoaSwaps i i1 b place =
      if i1 ≤ place ∧ place < i - i1 then b (i - 1 - place) else b place := by
  induction rounds : i / 2 - i1 generalizing i1 b with
  | zero =>
      rw [itoaSwaps, if_neg (by omega)]
      split_ifs with between
      · congr 1
        omega
      · rfl
  | succ rounds inductionHypothesis =>
      rw [itoaSwaps, if_pos (by omega)]
      rw [inductionHypothesis (i1 + 1) _ (by omega)]
      by_cases between : i1 + 1 ≤ place ∧ place < i - (i1 + 1)
      · rw [if_pos between, if_pos (by omega), Function.update_of_ne (by omega),
          Function.update_of_ne (by omega)]
      · rw [if_neg between]
        by_cases last : place = i - i1 - 1
        · rw [last, Function.update_self, if_pos (by omega)]
          congr 1
          omega
        · rw [Function.update_of_ne last]
          by_cases first : place = i1
          · rw [first, Function.update_self, if_pos (by omega)]
            congr 1
            omega
          · rw [Function.update_of_ne first, if_neg (by omega)]

/-! ## What `itoa` writes -/

/-- `d+'0'`. -/
def digitByte (d : Nat) : UInt8 := UInt8.ofNat (d + 48)

theorem digitByte_toNat {d : Nat} (digit : d < 10) : (digitByte d).toNat = d + 48 := by
  rw [digitByte, UInt8.toNat_ofNat']
  omega

/-- The numeral of a number. -/
def numeral (n : Nat) : List UInt8 :=
  if n = 0 then [48] else (Nat.digits 10 n).reverse.map digitByte

theorem length_numeral {n : Nat} (nonzero : n ≠ 0) :
    (numeral n).length = (Nat.digits 10 n).length := by
  rw [numeral, if_neg nonzero, List.length_map, List.length_reverse]

theorem getElem?_numeral {n k : Nat} {c : UInt8} (nonzero : n ≠ 0)
    (found : (numeral n)[k]? = some c) : k < (Nat.digits 10 n).length ∧
      c = digitByte ((Nat.digits 10 n).getD ((Nat.digits 10 n).length - 1 - k) 0) := by
  rw [numeral, if_neg nonzero, List.getElem?_map, Option.map_eq_some_iff] at found
  obtain ⟨d, isDigit, rfl⟩ := found
  have inside : k < (Nat.digits 10 n).length := by
    have bound := (List.getElem?_eq_some_iff.mp isDigit).1
    rwa [List.length_reverse] at bound
  rw [List.getElem?_reverse inside] at isDigit
  refine ⟨inside, ?_⟩
  rw [List.getD_eq_getElem?_getD, isDigit, Option.getD_some]

theorem numeral_digits (n : Nat) : ∀ c ∈ numeral n, 48 ≤ c.toNat ∧ c.toNat ≤ 57 := by
  intro c member
  unfold numeral at member
  split_ifs at member
  · rw [List.mem_singleton.mp member]
    decide
  · obtain ⟨d, isDigit, rfl⟩ := List.mem_map.mp member
    have small := Nat.digits_lt_base (by decide) (List.mem_reverse.mp isDigit)
    rw [digitByte_toNat small]
    omega

/-- The first digit of a number that is not 0 is its highest one. -/
theorem numeral_numeral (n : Nat) : Numeral (numeral n) := by
  refine ⟨numeral_digits n, ?_, ?_⟩
  · intro first
    by_cases zero : n = 0
    · rw [numeral, if_pos zero]
    · rw [numeral, if_neg zero, List.head?_map, List.head?_reverse,
        List.getLast?_eq_some_getLast (Nat.digits_ne_nil_iff_ne_zero.mpr zero)] at first
      have highest := Nat.getLast_digit_ne_zero 10 zero
      have small := Nat.digits_lt_base (b := 10) (by decide)
        (List.getLast_mem (Nat.digits_ne_nil_iff_ne_zero.mpr zero))
      have value := congrArg UInt8.toNat (Option.some.inj first)
      rw [digitByte_toNat small] at value
      exact absurd (Nat.add_right_cancel value) highest
  · intro empty
    by_cases zero : n = 0
    · rw [numeral, if_pos zero] at empty
      cases empty
    · have none := congrArg List.length empty
      rw [length_numeral zero] at none
      exact Nat.digits_ne_nil_iff_ne_zero.mpr zero (List.length_eq_zero_iff.mp none)

theorem decimalValue_digits (digits : List Nat) (small : ∀ d ∈ digits, d < 10) :
    decimalValue (digits.reverse.map digitByte) = Nat.ofDigits 10 digits := by
  unfold decimalValue
  rw [List.foldl_map, List.foldl_reverse]
  induction digits with
  | nil => rfl
  | cons d digits inductionHypothesis =>
      have rest := inductionHypothesis fun d member => small d (List.mem_cons_of_mem _ member)
      rw [List.foldr_cons, rest, Nat.ofDigits_cons,
        digitByte_toNat (small d List.mem_cons_self)]
      omega

theorem decimalValue_numeral (n : Nat) : decimalValue (numeral n) = n := by
  unfold numeral
  split_ifs with zero
  · rw [zero]
    rfl
  · rw [decimalValue_digits _ fun d member => Nat.digits_lt_base (by decide) member,
      Nat.ofDigits_digits]

/-- The numeral, the NUL and nothing behind it. -/
theorem itoa_numeral (n : Nat) (b : Nat → UInt8) : CString (itoa n b) (numeral n) ∧
    ∀ place, (numeral n).length < place → itoa n b place = b place := by
  by_cases zero : n = 0
  · subst zero
    rw [itoa, if_pos Nat.cast_zero]
    refine ⟨⟨?_, rfl⟩, ?_⟩
    · intro k c found
      cases k with
      | zero =>
          cases found
          exact ⟨rfl, by decide⟩
      | succ k => cases found
    · intro place behind
      change 1 < place at behind
      rw [Function.update_of_ne (by omega), Function.update_of_ne (by omega)]
  · obtain ⟨count, bytes⟩ := itoaDigits_spec n 0 b
    rw [Nat.zero_add] at count
    rw [itoa, if_neg (by omega)]
    dsimp only
    rw [count, length_numeral zero]
    refine ⟨⟨?_, ?_⟩, ?_⟩
    · intro k c found
      obtain ⟨inside, isByte⟩ := getElem?_numeral zero found
      have digit := numeral_digits n c (List.mem_of_getElem? found)
      constructor
      · rw [Function.update_of_ne (by omega), itoaSwaps_spec, if_pos (by omega), bytes,
          if_pos (by omega), isByte]
        rfl
      · rintro rfl
        exact absurd digit.1 (by decide)
    · rw [length_numeral zero, Function.update_self]
    · intro place behind
      rw [Function.update_of_ne (by omega), itoaSwaps_spec, if_neg (by omega), bytes,
        if_neg (by omega)]

theorem length_numeral_le {n : Nat} (small : n < 10 ^ 10) : (numeral n).length ≤ 10 := by
  by_cases zero : n = 0
  · rw [numeral, if_pos zero]
    decide
  · rw [length_numeral zero]
    exact (Nat.digits_length_le_iff (by decide) n).mpr small

/-- `itoa` of a number that is not negative writes its numeral into the first eleven
bytes, and no other such number has this string. -/
theorem itoa_decimal (a : Int32) (nonneg : 0 ≤ a.toInt) (b : Nat → UInt8) :
    ∃ string, CString (itoa a.toInt b) string ∧ Numeral string ∧
      (decimalValue string : Int) = a.toInt ∧
      (∀ place, 10 < place → itoa a.toInt b place = b place) ∧
      (∀ fuel, string.length < fuel →
        strlen (itoa a.toInt b) fuel = some string.length) ∧
      ∀ (other : Int32) (b' : Nat → UInt8), 0 ≤ other.toInt → other ≠ a →
        ¬ CString (itoa other.toInt b') string := by
  obtain ⟨n, value⟩ := Int.eq_ofNat_of_zero_le nonneg
  have small : n < 10 ^ 10 := by
    have bound := a.toInt_lt
    omega
  rw [value]
  obtain ⟨held, beyond⟩ := itoa_numeral n b
  refine ⟨numeral n, held, numeral_numeral n, by rw [decimalValue_numeral], ?_,
    fun fuel enough => strlen_spec held enough, ?_⟩
  · intro place outside
    exact beyond place ((length_numeral_le small).trans_lt outside)
  · intro other b' otherNonneg different heldToo
    obtain ⟨m, otherValue⟩ := Int.eq_ofNat_of_zero_le otherNonneg
    rw [otherValue] at heldToo
    have same := congrArg decimalValue (heldToo.unique (itoa_numeral m b').1)
    rw [decimalValue_numeral, decimalValue_numeral] at same
    apply different
    apply Int32.toInt_inj.mp
    rw [otherValue, value, same]

/-- Seven digits, and their odd one in the middle. -/
theorem itoa_decimal_seven : ∃ string,
    CString (itoa (1234567 : Int32).toInt fun _ => 0xFF) string ∧ Numeral string ∧
      (decimalValue string : Int) = (1234567 : Int32).toInt := by
  obtain ⟨string, held, isNumeral, value, _⟩ :=
    itoa_decimal 1234567 (by decide) fun _ => 0xFF
  exact ⟨string, held, isNumeral, value⟩

end Zeos
