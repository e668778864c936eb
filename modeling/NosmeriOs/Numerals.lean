import Mathlib.Data.Nat.Digits.Defs
import Mathlib.Data.Nat.Digits.Lemmas
import Mathlib.Tactic.Ring

/-! # Positional numerals

A numeral in base `b` is a list of digits, the highest one first.  `char` writes a digit and `val`
reads it.

* `numeral`: the digits of a number, without leading zeros.
* `value_numeral`: what is read is what was written. -/

namespace Numerals

variable {γ : Type*} (b : ℕ) (char : ℕ → γ) (val : γ → ℕ)

def numeral (n : ℕ) : List γ :=
  if n = 0 then [char 0] else ((Nat.digits b n).map char).reverse

/-- The value of a text, behind one with the value `v`. -/
def valueFrom (v : ℕ) (l : List γ) : ℕ := l.foldl (fun v c => v * b + val c) v

variable {b char val}

theorem numeral_of_pos {n : ℕ} (h : n ≠ 0) :
    numeral b char n = ((Nat.digits b n).map char).reverse := if_neg h

theorem numeral_ne_nil (n : ℕ) : numeral b char n ≠ [] := by
  unfold numeral
  split_ifs with h
  · simp
  · simpa using Nat.digits_ne_nil_iff_ne_zero.2 h

theorem mem_numeral (hb : 1 < b) {n : ℕ} {c : γ} (hc : c ∈ numeral b char n) :
    ∃ d < b, c = char d := by
  unfold numeral at hc
  split_ifs at hc
  · exact ⟨0, by omega, by simpa using hc⟩
  · obtain ⟨d, hd, rfl⟩ := List.mem_map.1 (List.mem_reverse.1 hc)
    exact ⟨d, Nat.digits_lt_base hb hd, rfl⟩

/-- Only zero starts with the digit zero. -/
theorem eq_of_head?_numeral (hinj : ∀ d < b, char d = char 0 → d = 0) (hb : 1 < b) {n : ℕ}
    (h : (numeral b char n).head? = some (char 0)) : n = 0 := by
  by_contra h0
  have hne : Nat.digits b n ≠ [] := Nat.digits_ne_nil_iff_ne_zero.2 h0
  rw [numeral_of_pos h0, List.head?_reverse, List.getLast?_map,
    List.getLast?_eq_some_getLast hne] at h
  have hlast := hinj _ (Nat.digits_lt_base hb (List.getLast_mem hne)) (Option.some.inj h)
  exact Nat.getLast_digit_ne_zero b h0 hlast

/-- Digits read from the highest one on. -/
theorem valueFrom_reverse (hval : ∀ d < b, val (char d) = d) {l : List ℕ} (h : ∀ d ∈ l, d < b) :
    valueFrom b val 0 (l.map char).reverse = Nat.ofDigits b l := by
  rw [valueFrom, List.foldl_reverse, List.foldr_map]
  induction l with
  | nil => rfl
  | cons d l ih =>
      rw [List.foldr_cons, ih fun e he => h e (List.mem_cons_of_mem _ he),
        hval d (h d List.mem_cons_self), Nat.ofDigits_cons]
      ring

theorem value_numeral (hval : ∀ d < b, val (char d) = d) (hb : 1 < b) (n : ℕ) :
    valueFrom b val 0 (numeral b char n) = n := by
  unfold numeral
  split_ifs with h0
  · simp [valueFrom, hval 0 (by omega), h0]
  · rw [valueFrom_reverse hval fun d hd => Nat.digits_lt_base hb hd, Nat.ofDigits_digits]

theorem length_numeral_le (hb : 1 < b) {n k : ℕ} (hk : k ≠ 0) (h : n < b ^ k) :
    (numeral b char n).length ≤ k := by
  unfold numeral
  split_ifs with h0
  · simpa using Nat.one_le_iff_ne_zero.2 hk
  · rw [List.length_reverse, List.length_map]
    exact (Nat.digits_length_le_iff hb n).2 h

end Numerals
