import Mathlib.Tactic

/-! # Ledgers

What the resources of a pool are used for, next to the set `F` of those that are free.

* `Sound F ρ`: no resource with an entry is free.
* `give` and `drop`: an entry is made, or some are struck out.
* `Extends P F F' ρ ρ'`: entries are kept and new ones are for uses in `P`; the resources that
  got one were free, and nothing becomes free. -/

namespace Ledgers

/-- What each resource is used for, if anything. -/
def Ledger (α β : Type*) : Type _ := α → Option β

variable {α β : Type*} {P Q : β → Prop} {F F' : Set α} {ρ ρ' : Ledger α β} {a : α} {u : β}

namespace Ledger

/-- The resource `a` is used for `u`. -/
def give [DecidableEq α] (ρ : Ledger α β) (a : α) (u : β) : Ledger α β := fun b =>
  if b = a then some u else ρ b

/-- The resources in `s` are no longer used. -/
def drop (ρ : Ledger α β) (s : α → Prop) [DecidablePred s] : Ledger α β := fun b =>
  if s b then none else ρ b

@[simp] theorem give_self [DecidableEq α] (ρ : Ledger α β) (a : α) (u : β) :
    ρ.give a u a = some u := if_pos rfl

theorem give_of_ne [DecidableEq α] (ρ : Ledger α β) {b : α} (h : b ≠ a) (u : β) :
    ρ.give a u b = ρ b := if_neg h

theorem give_of_some [DecidableEq α] {b : α} {v : β} (ha : ρ a = none) (hb : ρ b = some v)
    (u : β) : ρ.give a u b = some v := by
  rw [give_of_ne, hb]
  rintro rfl
  rw [ha] at hb
  cases hb

/-- An entry of the new ledger is the one made or an old one elsewhere. -/
theorem give_eq_some [DecidableEq α] {b : α} {v : β} (h : ρ.give a u b = some v) :
    b = a ∧ v = u ∨ b ≠ a ∧ ρ b = some v := by
  by_cases hb : b = a
  · subst hb
    rw [give_self] at h
    exact Or.inl ⟨rfl, (Option.some.inj h).symm⟩
  · rw [give_of_ne ρ hb] at h
    exact Or.inr ⟨hb, h⟩

theorem drop_eq_some {s : α → Prop} [DecidablePred s] :
    ρ.drop s a = some u ↔ ¬ s a ∧ ρ a = some u := by
  unfold drop
  split_ifs with h
  · simp [h]
  · simp [h]

end Ledger

/-- No resource in use is free. -/
def Sound (F : Set α) (ρ : Ledger α β) : Prop := ∀ a u, ρ a = some u → a ∉ F

theorem Sound.eq_none (h : Sound F ρ) (ha : a ∈ F) : ρ a = none := by
  cases hr : ρ a with
  | none => rfl
  | some u => exact absurd ha (h a u hr)

theorem Sound.ne (h : Sound F ρ) (ha : a ∈ F) {b : α} {v : β} (hb : ρ b = some v) : b ≠ a := by
  rintro rfl
  exact h b v hb ha

/-- `ρ'` has the entries of `ρ`, and others for uses in `P` of resources that were free. -/
structure Extends (P : β → Prop) (F F' : Set α) (ρ ρ' : Ledger α β) : Prop where
  free : F' ⊆ F
  entry : ∀ a, ρ' a = ρ a ∨ a ∈ F ∧ ∃ u, P u ∧ ρ' a = some u

namespace Extends

theorem refl (P : β → Prop) (F : Set α) (ρ : Ledger α β) : Extends P F F ρ ρ :=
  ⟨subset_rfl, fun _ => Or.inl rfl⟩

theorem shrink (h : F' ⊆ F) : Extends P F F' ρ ρ := ⟨h, fun _ => Or.inl rfl⟩

theorem mono (h : Extends P F F' ρ ρ') (hPQ : ∀ u, P u → Q u) : Extends Q F F' ρ ρ' := by
  refine ⟨h.free, fun a => ?_⟩
  obtain he | ⟨hf, u, hu, he⟩ := h.entry a
  · exact Or.inl he
  · exact Or.inr ⟨hf, u, hPQ u hu, he⟩

theorem give [DecidableEq α] (ρ : Ledger α β) (h : F' ⊆ F) (ha : a ∈ F) (hu : P u) :
    Extends P F F' ρ (ρ.give a u) := by
  refine ⟨h, fun b => ?_⟩
  by_cases hb : b = a
  · subst hb
    exact Or.inr ⟨ha, u, hu, Ledger.give_self ..⟩
  · exact Or.inl (Ledger.give_of_ne ρ hb u)

theorem trans {F₁ F₂ F₃ : Set α} {ρ₁ ρ₂ ρ₃ : Ledger α β} (h : Extends P F₁ F₂ ρ₁ ρ₂)
    (h' : Extends P F₂ F₃ ρ₂ ρ₃) : Extends P F₁ F₃ ρ₁ ρ₃ := by
  refine ⟨h'.free.trans h.free, fun a => ?_⟩
  obtain he | ⟨hf, u, hu, he⟩ := h'.entry a
  · rw [he]
    exact h.entry a
  · exact Or.inr ⟨h.free hf, u, hu, he⟩

/-- A resource that was free in the beginning gets another entry. -/
theorem regive [DecidableEq α] (h : Extends P F F' ρ ρ') (ha : a ∈ F) (hu : P u) :
    Extends P F F' ρ (ρ'.give a u) := by
  refine ⟨h.free, fun b => ?_⟩
  by_cases hb : b = a
  · subst hb
    exact Or.inr ⟨ha, u, hu, Ledger.give_self ..⟩
  · rw [Ledger.give_of_ne ρ' hb]
    exact h.entry b

/-- Entries stay. -/
theorem of_some (h : Extends P F F' ρ ρ') (hs : Sound F ρ) (ha : ρ a = some u) :
    ρ' a = some u := by
  obtain he | ⟨hf, -⟩ := h.entry a
  · rw [he, ha]
  · exact absurd hf (hs a u ha)

/-- No resource has got an entry for a use outside of `P`. -/
theorem old_of_not (h : Extends P F F' ρ ρ') (hu : ¬ P u) (ha : ρ' a = some u) :
    ρ a = some u := by
  obtain he | ⟨-, v, hv, he⟩ := h.entry a
  · rw [← he, ha]
  · rw [ha] at he
    cases he
    exact absurd hv hu

end Extends

end Ledgers
