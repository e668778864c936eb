import Mathlib.Data.List.Basic

/-! # Doubly linked segments

`next` and `prev` link cells to cells.  `Seg next prev p l n` says that the cells of `l` are
linked in this order, forwards and backwards, with `p` before the first and `n` after the last
one.  Segments are cut and joined by `seg_append`; `Seg.insert` and `Seg.remove` follow one cell
into a segment and out of it, for any new links that agree with the old ones elsewhere. -/

namespace Links

variable {α : Type} {next prev next' prev' : α → α}

def Seg (next prev : α → α) : α → List α → α → Prop
  | _, [], _ => True
  | p, a :: l, n => prev a = p ∧ next a = l.headD n ∧ Seg next prev a l n

theorem seg_append {p n : α} {xs ys : List α} :
    Seg next prev p (xs ++ ys) n ↔
      Seg next prev p xs (ys.headD n) ∧ Seg next prev (xs.getLastD p) ys n := by
  induction xs generalizing p with
  | nil => simp [Seg]
  | cons a xs ih =>
      have hhead : (xs ++ ys).headD n = xs.headD (ys.headD n) := by cases xs <;> rfl
      have hlast : (a :: xs).getLastD p = xs.getLastD a := List.getLastD_cons ..
      simp only [List.cons_append, Seg, ih, hhead, hlast, and_assoc]

theorem Seg.congr {p n : α} {l : List α} (h : Seg next prev p l n)
    (hl : ∀ a ∈ l, next' a = next a ∧ prev' a = prev a) : Seg next' prev' p l n := by
  induction l generalizing p with
  | nil => trivial
  | cons a l ih =>
      obtain ⟨h1, h2, h3⟩ := h
      obtain ⟨e1, e2⟩ := hl a (List.mem_cons_self ..)
      exact ⟨e2.trans h1, e1.trans h2, ih h3 fun b hb => hl b (List.mem_cons_of_mem _ hb)⟩

/-- Changing what comes before a segment changes the back link of its first cell only. -/
theorem Seg.relink {p q n : α} {l : List α} (h : Seg next prev p l n)
    (hn : ∀ a ∈ l, next' a = next a)
    (hp : ∀ a t, l = a :: t → prev' a = q ∧ ∀ b ∈ t, prev' b = prev b) :
    Seg next' prev' q l n := by
  cases l with
  | nil => trivial
  | cons a t =>
      obtain ⟨_, h2, h3⟩ := h
      obtain ⟨e1, e2⟩ := hp a t rfl
      exact ⟨e1, (hn a (List.mem_cons_self ..)).trans h2,
        h3.congr fun b hb => ⟨hn b (List.mem_cons_of_mem _ hb), e2 b hb⟩⟩

/-- The cell `c` is put between `b` and what follows it. -/
theorem Seg.insert {p n b c : α} {xs ys : List α} (h : Seg next prev p (xs ++ b :: ys) n)
    (hx : ∀ a ∈ xs, next' a = next a ∧ prev' a = prev a)
    (hb : next' b = c ∧ prev' b = prev b) (hc : next' c = next b ∧ prev' c = b)
    (hn : ∀ a ∈ ys, next' a = next a)
    (hp : ∀ a t, ys = a :: t → prev' a = c ∧ ∀ d ∈ t, prev' d = prev d) :
    Seg next' prev' p (xs ++ b :: c :: ys) n := by
  obtain ⟨h1, h2, h3, h4⟩ := seg_append.mp h
  refine seg_append.mpr ⟨h1.congr hx, hb.2.trans h2, hb.1, hc.2, hc.1.trans h3, ?_⟩
  exact h4.relink hn hp

/-- The cell `c` after `b` is taken out. -/
theorem Seg.remove {p n b c : α} {xs ys : List α} (h : Seg next prev p (xs ++ b :: c :: ys) n)
    (hx : ∀ a ∈ xs, next' a = next a ∧ prev' a = prev a)
    (hb : next' b = next c ∧ prev' b = prev b) (hn : ∀ a ∈ ys, next' a = next a)
    (hp : ∀ a t, ys = a :: t → prev' a = b ∧ ∀ d ∈ t, prev' d = prev d) :
    Seg next' prev' p (xs ++ b :: ys) n := by
  obtain ⟨h1, h2, _, _, h5, h6⟩ := seg_append.mp h
  exact seg_append.mpr ⟨h1.congr hx, hb.2.trans h2, hb.1.trans h5, h6.relink hn hp⟩

/-- The links of a cell inside a segment. -/
theorem Seg.links {p n b : α} {xs ys : List α} (h : Seg next prev p (xs ++ b :: ys) n) :
    next b = ys.headD n ∧ prev b = xs.getLastD p := by
  obtain ⟨_, h2, h3, _⟩ := seg_append.mp h
  exact ⟨h3, h2⟩

end Links
