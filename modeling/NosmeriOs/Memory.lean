import NosmeriOs.Bytes

/-! # Byte-addressed memory

A memory gives a byte to every address.  Words are stored with their least significant byte
first.  Each store comes with what is read back where it was made, and with the frame: a word or
a byte that does not overlap it is read as before. -/

namespace Memory

open Bytes

/-- The byte at every address. -/
abbrev Mem := ℕ → UInt8

namespace Mem

def load32 (m : Mem) (a : ℕ) : UInt32 := ofLe fun k => m (a + k)

def store32 (m : Mem) (a : ℕ) (w : UInt32) : Mem := fun x =>
  if a ≤ x ∧ x < a + 4 then leByte w (x - a) else m x

def store8 (m : Mem) (a : ℕ) (b : UInt8) : Mem := Function.update m a b

theorem store32_other (m : Mem) {a x : ℕ} (w : UInt32) (h : x < a ∨ a + 4 ≤ x) :
    m.store32 a w x = m x := by
  unfold store32
  rw [if_neg (by omega)]

theorem store8_other (m : Mem) {a x : ℕ} (b : UInt8) (h : x ≠ a) : m.store8 a b x = m x :=
  Function.update_of_ne h _ _

theorem load32_congr {m m' : Mem} {a : ℕ} (h : ∀ x, a ≤ x → x < a + 4 → m' x = m x) :
    m'.load32 a = m.load32 a :=
  ofLe_congr fun k hk => h (a + k) (by omega) (by omega)

@[simp] theorem load32_store32_same (m : Mem) (a : ℕ) (w : UInt32) :
    (m.store32 a w).load32 a = w := by
  unfold load32
  rw [← ofLe_leByte w]
  refine ofLe_congr fun k hk => ?_
  unfold store32
  rw [if_pos ⟨by omega, by omega⟩, Nat.add_sub_cancel_left, ofLe_leByte]

theorem load32_store32_of_apart (m : Mem) {a b : ℕ} (w : UInt32) (h : b + 4 ≤ a ∨ a + 4 ≤ b) :
    (m.store32 a w).load32 b = m.load32 b :=
  load32_congr fun x h1 h2 => store32_other m w (by omega)

theorem load32_store8_of_apart (m : Mem) {a b : ℕ} (v : UInt8) (h : b + 4 ≤ a ∨ a < b) :
    (m.store8 a v).load32 b = m.load32 b :=
  load32_congr fun x h1 h2 => store8_other m v (by omega)

@[simp] theorem store8_same (m : Mem) (a : ℕ) (v : UInt8) : m.store8 a v a = v :=
  Function.update_self ..

end Mem

end Memory
