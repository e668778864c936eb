import Mathlib.Data.Nat.Notation
import Mathlib.Logic.Function.Basic

/-! # Bitmaps of 32-bit words

A set of natural numbers stored as bits of an array of words: bit `i % 32` of word `i / 32`.
Bits are tested, set and cleared with masks, as such code does it; the lemmas say what a test
answers afterwards, at every index. -/

abbrev Bitmap := ℕ → BitVec 32

namespace Bitmap

/-- `b[i / 32] & (1 << (i % 32))`. -/
def test (b : Bitmap) (i : ℕ) : Bool := b (i / 32) &&& 1#32 <<< (i % 32) != 0

/-- `b[i / 32] |= 1 << (i % 32)`. -/
def set (b : Bitmap) (i : ℕ) : Bitmap :=
  Function.update b (i / 32) (b (i / 32) ||| 1#32 <<< (i % 32))

/-- `b[i / 32] &= ~(1 << (i % 32))`. -/
def unset (b : Bitmap) (i : ℕ) : Bitmap :=
  Function.update b (i / 32) (b (i / 32) &&& ~~~(1#32 <<< (i % 32)))

theorem getLsbD_mask {i j : ℕ} (hj : j < 32) :
    (1#32 <<< i).getLsbD j = decide (i = j) := by
  rw [← BitVec.twoPow_eq, BitVec.getLsbD_twoPow]
  by_cases h : i = j
  · subst h
    simp [hj]
  · simp [h]

/-- Masking out one bit tests it. -/
theorem and_mask_ne_zero (w : BitVec 32) {j : ℕ} (hj : j < 32) :
    (w &&& 1#32 <<< j != 0) = w.getLsbD j := by
  cases hw : w.getLsbD j with
  | true =>
      rw [bne_iff_ne]
      intro h0
      have := congrArg (fun v => BitVec.getLsbD v j) h0
      simp [getLsbD_mask hj, hw] at this
  | false =>
      have h0 : w &&& 1#32 <<< j = 0 := by
        apply BitVec.eq_of_getLsbD_eq
        intro k hk
        rw [BitVec.getLsbD_and, getLsbD_mask hk]
        by_cases h : j = k
        · subst h
          simp [hw]
        · simp [h]
      rw [h0]
      rfl

theorem test_eq (b : Bitmap) (i : ℕ) : b.test i = (b (i / 32)).getLsbD (i % 32) :=
  and_mask_ne_zero _ (Nat.mod_lt _ (by omega))

theorem test_set (b : Bitmap) (i j : ℕ) : (b.set i).test j = (b.test j || decide (i = j)) := by
  rw [test_eq, test_eq]
  unfold set
  by_cases hw : j / 32 = i / 32
  · rw [hw, Function.update_self, BitVec.getLsbD_or, getLsbD_mask (Nat.mod_lt _ (by omega))]
    have : i % 32 = j % 32 ↔ i = j := by omega
    simp only [this]
  · have : ¬ i = j := by
      rintro rfl
      exact hw rfl
    rw [Function.update_of_ne hw]
    simp [this]

theorem test_unset (b : Bitmap) (i j : ℕ) :
    (b.unset i).test j = (b.test j && !decide (i = j)) := by
  have hj : j % 32 < 32 := Nat.mod_lt _ (by omega)
  rw [test_eq, test_eq]
  unfold unset
  by_cases hw : j / 32 = i / 32
  · rw [hw, Function.update_self, BitVec.getLsbD_and, BitVec.getLsbD_not, getLsbD_mask hj]
    have : i % 32 = j % 32 ↔ i = j := by omega
    simp only [this, hj, decide_true, Bool.true_and]
  · have : ¬ i = j := by
      rintro rfl
      exact hw rfl
    rw [Function.update_of_ne hw]
    simp [this]

theorem test_full (i : ℕ) : test (fun _ => 0xFFFFFFFF#32) i = true := by
  rw [test_eq]
  have : i % 32 < 32 := Nat.mod_lt _ (by omega)
  rw [show (0xFFFFFFFF#32) = BitVec.allOnes 32 from rfl, BitVec.getLsbD_allOnes]
  simpa using this

end Bitmap
