import NosmeriOs.Itoa

/-! # Reading numbers back (`lib/string.cpp`)

* `atoi_digits` and `atoi_minus`: what `atoi` makes of digits.
* `atoi_decimalStr`: a number that `itoa` has written. -/

namespace NosmeriOs.Text

open Bytes Numerals

def IsDecimal (l : List UInt8) : Prop := ∀ c ∈ l, 48 ≤ c ∧ c ≤ 57

/-- An optional sign and then digits. -/
def SignedDecimal (l : List UInt8) : Prop :=
  ∃ sign digits, l = sign ++ digits ∧ (sign = [] ∨ sign = [45]) ∧ digits ≠ [] ∧ IsDecimal digits

theorem eq_charOf {c : UInt8} (h : 48 ≤ c ∧ c ≤ 57) : ∃ d < 10, c = charOf d := by
  have hlo : 48 ≤ c.toNat := UInt8.le_iff_toNat_le.1 h.1
  have hhi : c.toNat ≤ 57 := UInt8.le_iff_toNat_le.1 h.2
  have hchar : ∀ d < 10, (charOf d).toNat = 48 + d := by decide
  refine ⟨c.toNat - 48, by omega, UInt8.toNat_inj.1 ?_⟩
  rw [hchar _ (by omega)]
  omega

theorem isDecimal_numeral (n : ℕ) : IsDecimal (numeral 10 charOf n) := by
  intro c hc
  obtain ⟨d, hd, rfl⟩ := mem_numeral (by omega) hc
  exact charOf_decimal d hd

/-! ### `atoi` -/

theorem int32_charOf : ∀ d < 10, (charOf d).toInt8.toInt32 - 48 = Int32.ofNat d := by decide

theorem parseDigits_eq {l : List UInt8} (h : IsDecimal l) (n : ℕ) :
    parseDigits (Int32.ofNat n) l = Int32.ofNat (valueFrom 10 digitValue n l) := by
  induction l generalizing n with
  | nil => rfl
  | cons c l ih =>
      have hc := h c List.mem_cons_self
      obtain ⟨d, hd, rfl⟩ := eq_charOf hc
      have hstep : Int32.ofNat n * 10 + ((charOf d).toInt8.toInt32 - 48) =
          Int32.ofNat (n * 10 + digitValue (charOf d)) := by
        rw [int32_charOf d hd, digitValue_charOf d (by omega), Int32.ofNat_add, Int32.ofNat_mul]
        rfl
      unfold parseDigits
      rw [if_pos hc, hstep, ih fun e he => h e (List.mem_cons_of_mem _ he)]
      rfl

theorem atoi_digits {s : CStr} (hne : s.bytes ≠ []) (h : IsDecimal s.bytes) :
    atoi s = Int32.ofNat (valueFrom 10 digitValue 0 s.bytes) := by
  obtain ⟨c, l, hs⟩ := List.exists_cons_of_ne_nil hne
  have hc := h c (hs ▸ List.mem_cons_self)
  obtain ⟨d, hd, rfl⟩ := eq_charOf hc
  have hother : ∀ d < 10, charOf d ≠ 32 ∧ charOf d ≠ 45 ∧ charOf d ≠ 43 := by decide
  obtain ⟨hspace, hminus, hplus⟩ := hother d hd
  unfold atoi
  rw [hs, List.dropWhile_cons_of_neg (by simpa using hspace)]
  dsimp only
  rw [if_neg hminus, if_neg hplus, Int32.mul_one, ← hs]
  exact parseDigits_eq h 0

theorem atoi_minus {s : CStr} {l : List UInt8} (hs : s.bytes = 45 :: l) (h : IsDecimal l) :
    atoi s = -Int32.ofNat (valueFrom 10 digitValue 0 l) := by
  unfold atoi
  rw [hs, List.dropWhile_cons_of_neg (by decide)]
  dsimp only
  rw [if_pos rfl, Int32.mul_neg, Int32.mul_one]
  exact congrArg _ (parseDigits_eq h 0)

/-! ### Round trips -/

theorem valueFrom_numeral (n : ℕ) : valueFrom 10 digitValue 0 (numeral 10 charOf n) = n :=
  value_numeral (fun d hd => digitValue_charOf d (by omega)) (by omega) n

theorem atoi_numeralStr (n : ℕ) :
    atoi (numeralStr two_le_ten ten_le_max n) = Int32.ofNat n := by
  have h := atoi_digits (s := numeralStr two_le_ten ten_le_max n) (numeral_ne_nil n)
    (isDecimal_numeral n)
  rwa [show (numeralStr _ _ n).bytes = numeral 10 charOf n from rfl, valueFrom_numeral] at h

theorem atoi_decimalStr (num : Int32) : atoi (decimalStr num) = num := by
  have habs := @ofNat_natAbs num
  unfold decimalStr
  split_ifs at habs ⊢ with hneg
  · rw [atoi_minus rfl (isDecimal_numeral _), valueFrom_numeral, habs, Int32.neg_neg]
  · rw [atoi_numeralStr, habs]

theorem signedDecimal_decimalStr (num : Int32) : SignedDecimal (decimalStr num).bytes := by
  unfold decimalStr
  split_ifs with hneg
  · exact ⟨[45], _, rfl, .inr rfl, numeral_ne_nil _, isDecimal_numeral _⟩
  · exact ⟨[], _, rfl, .inl rfl, numeral_ne_nil _, isDecimal_numeral _⟩

theorem not_signedDecimal_minValueStr : ¬ SignedDecimal minValueStr.bytes := by
  rintro ⟨sign, digits, heq, hsign, hne, hdigits⟩
  obtain rfl | rfl := hsign
  · have hc := hdigits 45 (by rw [← List.nil_append digits, ← heq]; decide)
    exact absurd hc (by decide)
  · have htail : minValueStr.bytes.tail = digits := by rw [heq, List.singleton_append, List.tail_cons]
    have hc := hdigits 46 (by rw [← htail]; decide)
    exact absurd hc (by decide)

/-- `itoa` writes a sign and digits, which `atoi` reads as the number. -/
def RoundTrips (num : Int32) (str : Str) : Prop :=
  ∃ out s, itoaSigned num str 10 = some out ∧ Writes str out s ∧
    SignedDecimal s.bytes ∧ atoi s = num

theorem not_roundTrips_minValue (str : Str) : ¬ RoundTrips Int32.minValue str := by
  rintro ⟨out, s, hout, hwrites, hsigned, -⟩
  obtain ⟨out', hout', hwrites'⟩ := itoaSigned_minValue str
  obtain rfl : out' = out := Option.some.inj (hout'.symm.trans hout)
  obtain rfl := hwrites.holds.unique hwrites'.holds
  exact not_signedDecimal_minValueStr hsigned

theorem roundTrips_iff (num : Int32) (str : Str) : RoundTrips num str ↔ num ≠ Int32.minValue := by
  constructor
  · rintro h rfl
    exact not_roundTrips_minValue str h
  · intro h
    obtain ⟨out, hout, hwrites⟩ := itoaSigned_writes h str
    exact ⟨out, _, hout, hwrites, signedDecimal_decimalStr num, atoi_decimalStr num⟩

/-- The smallest number is written as `-./,),(-*,(`, which reads as zero. -/
theorem not_forall_roundTrips :
    (∃ out, itoaSigned Int32.minValue (fun _ => 0) 10 = some out ∧
      Writes (fun _ => 0) out minValueStr) ∧ atoi minValueStr = 0 ∧
      ¬ ∀ num str, RoundTrips num str :=
  ⟨itoaSigned_minValue _, by decide, fun h => not_roundTrips_minValue _ (h _ fun _ => 0)⟩

end NosmeriOs.Text
