import Mathlib.Data.List.Range
import Mathlib.Logic.Function.Basic
import Mathlib.Tactic.SplitIfs

/-! # Ring buffers

A queue in `n` slots, of which `head` is the next to be filled and `tail` the next to be emptied.
It is empty when the two are equal, so that at most `n - 1` slots are in use.

* `pending n b`: the elements from `tail` up to `head`.
* `pending_put`, `pending_drop` and `full_iff`: filling a slot appends, emptying one takes the first
  element away, and there is no room exactly when `n - 1` elements are pending. -/

namespace RingBuffers

variable {α : Type*} {n : ℕ}

structure Buffer (α : Type*) where
  slot : ℕ → α
  head : ℕ
  tail : ℕ

/-- The slot after slot `i`. -/
def next (n i : ℕ) : ℕ := (i + 1) % n

/-- Both indices are slots. -/
structure Ok (n : ℕ) (b : Buffer α) : Prop where
  head : b.head < n
  tail : b.tail < n

/-- The number of elements. -/
def length (n : ℕ) (b : Buffer α) : ℕ := (b.head + n - b.tail) % n

def pending (n : ℕ) (b : Buffer α) : List α :=
  (List.range (length n b)).map fun k => b.slot ((b.tail + k) % n)

/-- The next slot is filled. -/
def put (n : ℕ) (b : Buffer α) (a : α) : Buffer α :=
  { b with slot := Function.update b.slot b.head a, head := next n b.head }

/-- The first slot is given up. -/
def drop (n : ℕ) (b : Buffer α) : Buffer α := { b with tail := next n b.tail }

@[simp] theorem length_pending (b : Buffer α) : (pending n b).length = length n b := by
  simp [pending]

/-- An index goes around at most once. -/
theorem mod_eq_ite {a : ℕ} (h : a < 2 * n) : a % n = if a < n then a else a - n := by
  split_ifs with ha
  · exact Nat.mod_eq_of_lt ha
  · rw [Nat.mod_eq_sub_mod (by omega), Nat.mod_eq_of_lt (by omega)]

theorem next_lt {i : ℕ} (h : i < n) : next n i < n := Nat.mod_lt _ (by omega)

section ok
variable {b : Buffer α} (h : Ok n b)
include h

theorem Ok.put (a : α) : Ok n (put n b a) := ⟨next_lt h.head, h.tail⟩

theorem Ok.drop : Ok n (drop n b) := ⟨h.head, next_lt h.tail⟩

theorem length_eq : length n b = if b.tail ≤ b.head then b.head - b.tail else b.head + n - b.tail := by
  have hhead := h.head
  have htail := h.tail
  unfold length
  rw [mod_eq_ite (by omega)]
  split_ifs <;> omega

theorem length_lt : length n b < n := Nat.mod_lt _ (by have := h.head; omega)

theorem empty_iff : length n b = 0 ↔ b.head = b.tail := by
  have hhead := h.head
  have htail := h.tail
  rw [length_eq h]
  split_ifs <;> omega

theorem pending_eq_nil_iff : pending n b = [] ↔ b.head = b.tail := by
  rw [← empty_iff h, ← length_pending, List.length_eq_zero_iff]

/-- The slot after the last one is the first exactly when all but one are in use. -/
theorem full_iff : next n b.head = b.tail ↔ length n b + 1 = n := by
  have hhead := h.head
  have htail := h.tail
  rw [length_eq h]
  unfold next
  rw [mod_eq_ite (by omega)]
  split_ifs <;> omega

theorem length_put (hroom : next n b.head ≠ b.tail) (a : α) :
    length n (put n b a) = length n b + 1 := by
  have hhead := h.head
  have htail := h.tail
  rw [length_eq (h.put a), length_eq h]
  unfold put next at *
  dsimp only
  rw [mod_eq_ite (by omega)] at *
  split_ifs at * <;> omega

theorem length_drop (hne : b.head ≠ b.tail) : length n b = length n (drop n b) + 1 := by
  have hhead := h.head
  have htail := h.tail
  rw [length_eq h.drop, length_eq h]
  unfold drop next
  dsimp only
  rw [mod_eq_ite (by omega)]
  split_ifs <;> omega

/-- Filling a slot appends. -/
theorem pending_put (hroom : next n b.head ≠ b.tail) (a : α) :
    pending n (put n b a) = pending n b ++ [a] := by
  have hhead := h.head
  have htail := h.tail
  have hlen := length_eq h
  have hlt := length_lt h
  -- the slot that is filled comes right behind the others
  have hlast : (b.tail + length n b) % n = b.head := by
    rw [mod_eq_ite (by omega), hlen]
    split_ifs <;> omega
  have hother : ∀ k < length n b, (b.tail + k) % n ≠ b.head := by
    intro k hk
    rw [mod_eq_ite (by omega)]
    split_ifs at * <;> omega
  unfold pending
  rw [length_put h hroom, List.range_succ, List.map_append, List.map_singleton]
  congr 1
  · apply List.map_congr_left
    intro k hk
    exact Function.update_of_ne (hother k (List.mem_range.1 hk)) ..
  · unfold put
    dsimp only
    rw [hlast, Function.update_self]

/-- Emptying a slot takes the first element away. -/
theorem pending_drop (hne : b.head ≠ b.tail) :
    pending n b = b.slot b.tail :: pending n (drop n b) := by
  have htail := h.tail
  unfold pending
  rw [length_drop h hne, List.range_succ_eq_map, List.map_cons, List.map_map, Nat.add_zero,
    Nat.mod_eq_of_lt htail]
  congr 1
  apply List.map_congr_left
  intro k _
  unfold drop next
  dsimp only [Function.comp]
  rw [Nat.mod_add_mod]
  congr 2
  omega

end ok

end RingBuffers
