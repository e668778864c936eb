import Mathlib.Data.UInt
import Mathlib.Tactic
import NosmeriOs.Bytes
import NosmeriOs.Numerals

/-! # Numbers as text (`lib/string.cpp`)

* `itoaUnsigned` and `itoaSigned`: the two `itoa`, which write the digits from the lowest one on
  and then reverse them.
* `atoi`. -/

namespace NosmeriOs.Text

open Bytes Numerals

/-- The characters from an address on. -/
abbrev Str := ℕ → UInt8

/-- The loop of `reverse_string`. -/
def reverseLoop (str : Str) (start stop : ℕ) : Str :=
  if start < stop then
    let temp := str start
    let str := Function.update str start (str stop)
    reverseLoop (Function.update str stop temp) (start + 1) (stop - 1)
  else str
termination_by stop - start

def reverseString (str : Str) (length : ℕ) : Str := reverseLoop str 0 (length - 1)

/-- The character that `itoa` writes for a remainder. -/
def digitChar (remainder : Int32) : UInt8 :=
  if 9 < remainder then (remainder - 10 + 65).toInt8.toUInt8 else (remainder + 48).toInt8.toUInt8

/-- The loop of `itoa`, at most `fuel` times; `none` if it does not end then. -/
def digitLoop {α : Type} [DecidableEq α] [OfNat α 0] (remainder : α → Int32) (quotient : α → α) :
    ℕ → α → Str → ℕ → Option (Str × ℕ)
  | fuel, num, str, i =>
      if num = 0 then some (str, i)
      else match fuel with
        | 0 => none
        | fuel + 1 => digitLoop remainder quotient fuel (quotient num)
            (Function.update str i (digitChar (remainder num))) (i + 1)

/-- `itoa` of an `unsigned int`; `none` if it divides by zero or does not end. -/
def itoaUnsigned (num : UInt32) (str : Str) (base : Int32) : Option Str :=
  if num = 0 then some (Function.update (Function.update str 0 48) 1 0)
  else if base = 0 then none
  else do
    let (str, i) ← digitLoop (fun num : UInt32 => (num % base.toUInt32).toInt32)
      (fun num => num / base.toUInt32) 32 num str 0
    some (reverseString (Function.update str i 0) i)

/-- `itoa` of an `int`, on 32 bits that wrap around. -/
def itoaSigned (num : Int32) (str : Str) (base : Int32) : Option Str :=
  if num = 0 then some (Function.update (Function.update str 0 48) 1 0)
  else if base = 0 then none
  else do
    let isNegative := num < 0 ∧ base = 10
    let num := if isNegative then -num else num
    let (str, i) ← digitLoop (fun num : Int32 => num % base) (fun num => num / base) 32 num str 0
    let (str, i) := if isNegative then (Function.update str i 45, i + 1) else (str, i)
    some (reverseString (Function.update str i 0) i)

/-- The loop of `atoi` over the digits. -/
def parseDigits : Int32 → List UInt8 → Int32
  | res, [] => res
  | res, c :: str =>
      if 48 ≤ c ∧ c ≤ 57 then parseDigits (res * 10 + (c.toInt8.toInt32 - 48)) str else res

def atoi (str : CStr) : Int32 :=
  let str := str.bytes.dropWhile (· = 32)
  match str with
  | [] => parseDigits 0 str * 1
  | c :: rest =>
      if c = 45 then parseDigits 0 rest * -1
      else if c = 43 then parseDigits 0 rest * 1
      else parseDigits 0 str * 1

/-! ### The loops -/

/-- Both ends have been swapped up to where the loop is. -/
theorem reverseLoop_eq (str : Str) {start stop : ℕ} (h : start ≤ stop + 1) :
    reverseLoop str start stop =
      fun k => if start ≤ k ∧ k ≤ stop then str (start + stop - k) else str k := by
  fun_induction reverseLoop str start stop with
  | case1 str start stop hlt temp str' ih =>
      rw [ih (by omega)]
      funext k
      simp only [str', temp, Function.update_apply]
      split_ifs <;> first | rfl | omega | (congr 1; omega)
  | case2 str start stop hge =>
      funext k
      split_ifs with hk
      · congr 1
        omega
      · rfl

/-- The characters of `l` from the index `i` on. -/
def place (str : Str) (i : ℕ) (l : List UInt8) : Str := fun k =>
  if i ≤ k ∧ k < i + l.length then l.getD (k - i) 0 else str k

theorem place_nil (str : Str) (i : ℕ) : place str i [] = str := by
  funext k
  unfold place
  rw [if_neg (by rw [List.length_nil]; omega)]

theorem place_cons (str : Str) (i : ℕ) (c : UInt8) (l : List UInt8) :
    place (Function.update str i c) (i + 1) l = place str i (c :: l) := by
  funext k
  unfold place
  rw [List.length_cons, Function.update_apply]
  obtain hk | rfl | hk := Nat.lt_trichotomy k i
  · rw [if_neg (by omega), if_neg (by omega), if_neg (by omega)]
  · rw [if_neg (by omega), if_pos rfl, if_pos (by omega), Nat.sub_self, List.getD_cons_zero]
  · obtain ⟨j, rfl⟩ : ∃ j, k = i + 1 + j := ⟨k - (i + 1), by omega⟩
    rw [Nat.add_sub_cancel_left, show i + 1 + j - i = j + 1 by omega, List.getD_cons_succ]
    by_cases hj : j < l.length
    · rw [if_pos (by omega), if_pos (by omega)]
    · rw [if_neg (by omega), if_neg (by omega), if_neg (by omega)]

section loop
variable {α : Type} [DecidableEq α] [OfNat α 0] (remainder : α → Int32) (quotient : α → α)

/-- The characters that the loop writes. -/
def digitChars : ℕ → α → Option (List UInt8)
  | fuel, num =>
      if num = 0 then some []
      else match fuel with
        | 0 => none
        | fuel + 1 =>
            (digitChars fuel (quotient num)).map (digitChar (remainder num) :: ·)

theorem digitLoop_eq (fuel : ℕ) (num : α) (str : Str) (i : ℕ) :
    digitLoop remainder quotient fuel num str i =
      (digitChars remainder quotient fuel num).map fun l => (place str i l, i + l.length) := by
  induction fuel generalizing num str i with
  | zero =>
      unfold digitLoop digitChars
      split_ifs
      · simp [place_nil]
      · rfl
  | succ fuel ih =>
      unfold digitLoop digitChars
      split_ifs
      · simp [place_nil]
      · dsimp only
        rw [ih, Option.map_map]
        congr 1
        funext l
        simp only [Function.comp_apply, place_cons, List.length_cons]
        rw [Nat.add_right_comm, Nat.add_assoc]

variable {remainder quotient}

theorem digitLoop_of_digitChars {fuel : ℕ} {num : α} {l : List UInt8}
    (h : digitChars remainder quotient fuel num = some l) (str : Str) :
    digitLoop remainder quotient fuel num str 0 = some (place str 0 l, l.length) := by
  rw [digitLoop_eq, h, Option.map_some, Nat.zero_add]

/-- The digits are those in base `b`, if the operations are those of the natural numbers. -/
theorem digitChars_of_digits {b : ℕ} (bound : ℕ) (of : ℕ → α) (hb : 1 < b)
    (hzero : ∀ n < bound, of n = 0 ↔ n = 0)
    (hrem : ∀ n < bound, remainder (of n) = Int32.ofNat (n % b))
    (hquot : ∀ n < bound, quotient (of n) = of (n / b)) {fuel n : ℕ} (hn : n < bound)
    (hfuel : n < 2 ^ fuel) : digitChars remainder quotient fuel (of n) =
      some ((Nat.digits b n).map fun d => digitChar (Int32.ofNat d)) := by
  induction fuel generalizing n with
  | zero =>
      obtain rfl : n = 0 := by omega
      unfold digitChars
      rw [if_pos ((hzero 0 hn).2 rfl), Nat.digits_zero, List.map_nil]
  | succ fuel ih =>
      unfold digitChars
      by_cases h0 : n = 0
      · rw [if_pos ((hzero n hn).2 h0), h0, Nat.digits_zero, List.map_nil]
      · have hdiv : n / b < n := Nat.div_lt_self (by omega) hb
        have hhalf : n / b ≤ n / 2 := Nat.div_le_div_left hb (by omega)
        have hlt : n / b < 2 ^ fuel := by
          rw [pow_succ] at hfuel
          omega
        have hdigits := Nat.digits_def' hb (Nat.pos_of_ne_zero h0)
        rw [if_neg fun e => h0 ((hzero n hn).1 e)]
        dsimp only
        rw [hquot n hn, ih (by omega) hlt, hrem n hn, hdigits]
        rfl

end loop

/-- The string `s` is written, and nothing behind it. -/
structure Writes (str out : Str) (s : CStr) : Prop where
  holds : CStr.Holds out s
  others : ∀ k, s.strlen < k → out k = str k

theorem writes_reverseString (str : Str) {l : List UInt8} (h0 : 0 ∉ l.reverse) :
    Writes str (reverseString (Function.update (place str 0 l) l.length 0) l.length)
      ⟨l.reverse, h0⟩ := by
  have hlen : (⟨l.reverse, h0⟩ : CStr).strlen = l.length := List.length_reverse
  unfold reverseString
  rw [reverseLoop_eq _ (by omega)]
  refine ⟨fun k hk => ?_, fun k hk => ?_⟩
  · rw [hlen] at hk
    unfold CStr.byteAt place
    dsimp only
    obtain hlt | rfl := Nat.lt_or_eq_of_le hk
    · rw [if_pos (by omega), Function.update_of_ne (by omega), if_pos (by omega),
        List.getD_eq_getElem _ _ (by omega),
        List.getD_eq_getElem _ _ (by rw [List.length_reverse]; omega), List.getElem_reverse]
      congr 1
      omega
    · rw [List.getD_eq_default _ _ (by rw [List.length_reverse])]
      split_ifs with h
      · have hl : l = [] := List.length_eq_zero_iff.1 (by omega)
        subst hl
        rfl
      · exact Function.update_self ..
  · rw [hlen] at hk
    unfold place
    rw [if_neg (by omega), Function.update_of_ne (by omega), if_neg (by omega)]

/-! ### Digits -/

/-- The digits `0` to `9` and then `A` to `Z`. -/
def charOf (d : ℕ) : UInt8 := digitChar (Int32.ofNat d)

def digitValue (c : UInt8) : ℕ := if 48 ≤ c ∧ c ≤ 57 then c.toNat - 48 else c.toNat - 55

theorem digitValue_charOf : ∀ d < 36, digitValue (charOf d) = d := by decide

theorem charOf_range : ∀ d < 36, 48 ≤ charOf d ∧ charOf d ≤ 57 ∨ 65 ≤ charOf d ∧ charOf d ≤ 90 := by
  decide

theorem charOf_decimal : ∀ d < 10, 48 ≤ charOf d ∧ charOf d ≤ 57 := by decide

theorem charOf_ne_zero {d : ℕ} (h : d < 36) : charOf d ≠ 0 := by
  intro h0
  have hrange := charOf_range d h
  rw [h0] at hrange
  exact absurd hrange (by decide)

/-- A number as text in base `base`. -/
structure Canonical (base n : ℕ) (s : CStr) : Prop where
  ne_nil : s.bytes ≠ []
  digits : ∀ c ∈ s.bytes,
    (48 ≤ c ∧ c ≤ 57 ∨ 65 ≤ c ∧ c ≤ 90) ∧ digitValue c < base
  no_leading_zero : s.bytes.head? = some 48 → s.bytes = [48]
  value : valueFrom base digitValue 0 s.bytes = n

section base
variable {base : ℕ} (hlo : 2 ≤ base) (hhi : base ≤ 36)
include hlo hhi

theorem zero_notMem_numeral (n : ℕ) : 0 ∉ numeral base charOf n := by
  intro h
  obtain ⟨d, hd, h0⟩ := mem_numeral (by omega) h
  exact charOf_ne_zero (by omega) h0.symm

/-- `numeral` as a string. -/
def numeralStr (n : ℕ) : CStr := ⟨numeral base charOf n, zero_notMem_numeral hlo hhi n⟩

theorem canonical_numeralStr (n : ℕ) : Canonical base n (numeralStr hlo hhi n) := by
  have hval : ∀ d < base, digitValue (charOf d) = d :=
    fun d hd => digitValue_charOf d (by omega)
  refine ⟨numeral_ne_nil n, fun c hc => ?_, fun h => ?_, value_numeral hval (by omega) n⟩
  · obtain ⟨d, hd, rfl⟩ := mem_numeral (by omega) hc
    exact ⟨charOf_range d (by omega), by rwa [hval d hd]⟩
  · have hinj : ∀ d < base, charOf d = charOf 0 → d = 0 := fun d hd he => by
      rw [← hval d hd, he, hval 0 (by omega)]
    obtain rfl := eq_of_head?_numeral hinj (by omega) h
    rfl

end base

/-! ### `itoa` -/

theorem writes_zero (str : Str) (h0 : 0 ∉ [(48 : UInt8)]) :
    Writes str (Function.update (Function.update str 0 48) 1 0) ⟨[48], h0⟩ := by
  refine ⟨fun k hk => ?_, fun k hk => ?_⟩
  · obtain rfl | rfl : k = 0 ∨ k = 1 := Nat.le_one_iff_eq_zero_or_eq_one.1 hk
    · rfl
    · rfl
  · have h1 : 1 < k := hk
    rw [Function.update_of_ne (by omega), Function.update_of_ne (by omega)]

theorem place_concat (str : Str) (i : ℕ) (l : List UInt8) (c : UInt8) :
    Function.update (place str i l) (i + l.length) c = place str i (l ++ [c]) := by
  induction l generalizing str i with
  | nil => rw [List.nil_append, place_nil, ← place_cons, place_nil, List.length_nil, Nat.add_zero]
  | cons a l ih =>
      rw [List.cons_append, ← place_cons, ← place_cons, ← ih, List.length_cons]
      congr 1
      omega

section base
variable {base : ℕ} (hlo : 2 ≤ base) (hhi : base ≤ 36)
include hlo hhi

omit hhi in
theorem digitChars_unsigned (hlt : base < 2 ^ 31) (num : UInt32) :
    digitChars (fun num : UInt32 => (num % (Int32.ofNat base).toUInt32).toInt32)
      (fun num => num / (Int32.ofNat base).toUInt32) 32 num =
      some ((Nat.digits base num.toNat).map charOf) := by
  have hbase : (Int32.ofNat base).toUInt32 = UInt32.ofNat base := Int32.toUInt32_ofNat'
  have hnum : num = UInt32.ofNat num.toNat := UInt32.ofNat_toNat.symm
  rw [hbase]
  conv_lhs => rw [hnum]
  refine digitChars_of_digits (2 ^ 32) UInt32.ofNat hlo (fun n hn => ?_) (fun n hn => ?_)
    (fun n hn => ?_) num.toNat_lt num.toNat_lt
  · rw [UInt32.ofNat_eq_iff_mod_eq_toNat, Nat.mod_eq_of_lt hn, UInt32.toNat_zero]
  · rw [← UInt32.ofNat_mod hn (by omega), UInt32.toInt32_ofNat']
  · rw [← UInt32.ofNat_div hn (by omega)]

omit hhi in
theorem digitChars_signed (hlt : base < 2 ^ 31) {n : ℕ} (hn : n < 2 ^ 31) :
    digitChars (fun num : Int32 => num % Int32.ofNat base) (fun num => num / Int32.ofNat base) 32
      (Int32.ofNat n) = some ((Nat.digits base n).map charOf) := by
  refine digitChars_of_digits (2 ^ 31) Int32.ofNat hlo (fun n hn => ?_) (fun n hn => ?_)
    (fun n hn => ?_) hn (by omega)
  · rw [← Int32.toInt_inj, Int32.toInt_ofNat_of_lt hn, Int32.toInt_zero, Int.natCast_eq_zero]
  · rw [← Int32.ofNat_mod hn hlt]
  · rw [← Int32.ofNat_div hn hlt]

/-- What the loop, the terminator and the reversal leave. -/
theorem writes_numeral (str : Str) {n : ℕ} (hn : n ≠ 0) :
    Writes str
      (reverseString (Function.update (place str 0 ((Nat.digits base n).map charOf))
        ((Nat.digits base n).map charOf).length 0) ((Nat.digits base n).map charOf).length)
      (numeralStr hlo hhi n) := by
  have h0 : 0 ∉ ((Nat.digits base n).map charOf).reverse := by
    rw [← numeral_of_pos hn]
    exact zero_notMem_numeral hlo hhi n
  have hs : numeralStr hlo hhi n = ⟨_, h0⟩ := CStr.ext (numeral_of_pos hn)
  rw [hs]
  exact writes_reverseString str h0

theorem itoaUnsigned_writes (num : UInt32) (str : Str) :
    ∃ out, itoaUnsigned num str (Int32.ofNat base) = some out ∧
      Writes str out (numeralStr hlo hhi num.toNat) := by
  unfold itoaUnsigned
  by_cases h0 : num = 0
  · rw [if_pos h0]
    subst h0
    exact ⟨_, rfl, writes_zero str (zero_notMem_numeral hlo hhi 0)⟩
  · have hbase : Int32.ofNat base ≠ 0 := by
      rw [ne_eq, ← Int32.toInt_inj, Int32.toInt_ofNat_of_lt (by omega), Int32.toInt_zero]
      omega
    have hne : num.toNat ≠ 0 := fun h => h0 (UInt32.toNat_inj.1 h)
    have hdigits := digitChars_unsigned hlo (show base < 2 ^ 31 by omega) num
    rw [if_neg h0, if_neg hbase, digitLoop_of_digitChars hdigits]
    exact ⟨_, rfl, writes_numeral hlo hhi str hne⟩

end base

theorem two_le_ten : 2 ≤ 10 := by omega

theorem ten_le_max : 10 ≤ 36 := by omega

/-- The text of `num`, with a sign if it is negative. -/
def decimalStr (num : Int32) : CStr :=
  if num < 0 then
    ⟨45 :: numeral 10 charOf num.toInt.natAbs, by
      rw [List.mem_cons, not_or]
      exact ⟨by decide, zero_notMem_numeral two_le_ten ten_le_max _⟩⟩
  else numeralStr two_le_ten ten_le_max num.toInt.natAbs

theorem natAbs_lt {num : Int32} (h : num ≠ Int32.minValue) : num.toInt.natAbs < 2 ^ 31 := by
  have hlo : -2 ^ 31 ≤ num.toInt := Int32.le_toInt num
  have hhi : num.toInt < 2 ^ 31 := Int32.toInt_lt num
  have hne : num.toInt ≠ -2 ^ 31 := fun e => h (Int32.toInt_inj.1 e)
  omega

theorem ofNat_natAbs {num : Int32} : Int32.ofNat num.toInt.natAbs = if num < 0 then -num else num := by
  rw [← Int32.ofInt_eq_ofNat]
  split_ifs with hneg
  · rw [Int32.lt_iff_toInt_lt, Int32.toInt_zero] at hneg
    rw [Int.ofNat_natAbs_of_nonpos hneg.le, Int32.ofInt_neg, Int32.ofInt_toInt]
  · rw [Int32.lt_iff_toInt_lt, Int32.toInt_zero] at hneg
    rw [Int.natAbs_of_nonneg (by omega), Int32.ofInt_toInt]

theorem writes_sign (str : Str) {l : List UInt8} (h0 : 0 ∉ 45 :: l.reverse) :
    Writes str
      (reverseString (Function.update (Function.update (place str 0 l) l.length 45)
        (l.length + 1) 0) (l.length + 1)) ⟨45 :: l.reverse, h0⟩ := by
  have hplace : Function.update (place str 0 l) l.length 45 = place str 0 (l ++ [45]) := by
    rw [← place_concat, Nat.zero_add]
  have hrev : (l ++ [45]).reverse = 45 :: l.reverse := List.reverse_concat
  have hwrites := writes_reverseString str (hrev.symm ▸ h0)
  simp only [hrev, List.length_append, List.length_singleton] at hwrites
  rw [hplace]
  exact hwrites

/-- A number that can be negated is written with its sign. -/
theorem itoaSigned_writes {num : Int32} (h : num ≠ Int32.minValue) (str : Str) :
    ∃ out, itoaSigned num str 10 = some out ∧ Writes str out (decimalStr num) := by
  unfold itoaSigned decimalStr
  by_cases h0 : num = 0
  · subst h0
    exact ⟨_, rfl, writes_zero str (by decide)⟩
  · have hne : num.toInt.natAbs ≠ 0 := fun e => h0 (Int32.toInt_inj.1 (Int.natAbs_eq_zero.1 e))
    have hdigits : digitChars (fun num : Int32 => num % 10) (fun num => num / 10) 32
        (if num < 0 then -num else num) = some ((Nat.digits 10 num.toInt.natAbs).map charOf) := by
      rw [← ofNat_natAbs]
      exact digitChars_signed (le_of_lt (by decide)) (by decide) (natAbs_lt h)
    rw [if_neg h0, if_neg (by decide)]
    dsimp only
    by_cases hneg : num < 0
    · have hcond : num < 0 ∧ (10 : Int32) = 10 := ⟨hneg, rfl⟩
      rw [if_pos hneg] at hdigits
      rw [if_pos hcond, if_pos hneg, digitLoop_of_digitChars hdigits]
      refine ⟨_, rfl, ?_⟩
      rw [if_pos hcond]
      simp only [numeral_of_pos hne]
      exact writes_sign str _
    · have hcond : ¬ (num < 0 ∧ (10 : Int32) = 10) := fun hc => hneg hc.1
      rw [if_neg hneg] at hdigits
      rw [if_neg hcond, if_neg hneg, digitLoop_of_digitChars hdigits]
      refine ⟨_, rfl, ?_⟩
      rw [if_neg hcond]
      exact writes_numeral (by decide) (by decide) str hne

/-- What is written for the number that has no negation: its remainders are not digits. -/
def minValueStr : CStr := ⟨[45, 46, 47, 44, 41, 44, 40, 45, 42, 44, 40], by decide⟩

theorem itoaSigned_minValue (str : Str) :
    ∃ out, itoaSigned Int32.minValue str 10 = some out ∧ Writes str out minValueStr := by
  have hdigits : digitChars (fun num : Int32 => num % 10) (fun num => num / 10) 32
      (if Int32.minValue < 0 then -Int32.minValue else Int32.minValue) =
        some minValueStr.bytes.tail.reverse := by decide
  have hcond : Int32.minValue < 0 ∧ (10 : Int32) = 10 := by decide
  rw [if_pos hcond.1] at hdigits
  unfold itoaSigned
  rw [if_neg (by decide), if_neg (by decide)]
  dsimp only
  rw [if_pos hcond, digitLoop_of_digitChars hdigits]
  refine ⟨_, rfl, ?_⟩
  rw [if_pos hcond]
  exact writes_sign str _

end NosmeriOs.Text
