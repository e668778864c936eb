import Mathlib.Data.List.Perm.Basic
import Mathlib.Logic.Function.Iterate

/-! # Rings

`next` links cells to cells.  `Path next a l b` says that the walk from `a` passes through the
cells of `l` and then comes to `b`; `Ring next c l` that it comes back to `c`, with all cells
distinct.  Paths are cut and joined by `path_append`.

* `Ring.insert` and `Ring.remove` follow one cell into a ring and out of it, for any new links
  that agree with the old ones elsewhere.
* `Ring.rotate` starts the same ring at another cell.
* `Ring.walk`: the cells in the order in which a walk from `c` visits them. -/

namespace Rings

variable {α : Type} {next next' : α → α}

def Path (next : α → α) : α → List α → α → Prop
  | a, [], b => next a = b
  | a, x :: l, b => next a = x ∧ Path next x l b

theorem path_append {a b t : α} {xs ys : List α} :
    Path next a (xs ++ t :: ys) b ↔ Path next a xs t ∧ Path next t ys b := by
  induction xs generalizing a with
  | nil => exact Iff.rfl
  | cons x xs ih => simp only [List.cons_append, Path, ih, and_assoc]

theorem Path.congr {a b : α} {l : List α} (h : Path next a l b)
    (hl : ∀ x ∈ a :: l, next' x = next x) : Path next' a l b := by
  induction l generalizing a with
  | nil => exact (hl a (List.mem_cons_self ..)).trans h
  | cons x l ih =>
      obtain ⟨h1, h2⟩ := h
      exact ⟨(hl a (List.mem_cons_self ..)).trans h1, ih h2 fun y hy =>
        hl y (List.mem_cons_of_mem _ hy)⟩

/-- The last cell of a path is linked to another end. -/
theorem Path.relink {a b b' : α} {l : List α} (h : Path next a l b) (hn : (a :: l).Nodup)
    (hlast : next' (l.getLastD a) = b')
    (hl : ∀ x ∈ a :: l, x ≠ l.getLastD a → next' x = next x) : Path next' a l b' := by
  induction l generalizing a with
  | nil => exact hlast
  | cons x l ih =>
      obtain ⟨h1, h2⟩ := h
      obtain ⟨ha, hn'⟩ := List.nodup_cons.1 hn
      rw [List.getLastD_cons] at hlast hl
      have hmem : l.getLastD x ∈ x :: l := List.getLastD_mem_cons
      have hne : a ≠ l.getLastD x := fun e => ha (e ▸ hmem)
      exact ⟨(hl a (List.mem_cons_self ..) hne).trans h1, ih h2 hn' hlast fun y hy =>
        hl y (List.mem_cons_of_mem _ hy)⟩

/-- Only one path leads from a cell to the next visit of `b`. -/
theorem Path.unique {a b : α} {l m : List α} (h : Path next a l b) (h' : Path next a m b)
    (hl : b ∉ l) (hm : b ∉ m) : l = m := by
  induction l generalizing a m with
  | nil =>
      cases m with
      | nil => rfl
      | cons y m => exact absurd (h'.1.symm.trans h ▸ List.mem_cons_self ..) hm
  | cons x l ih =>
      rw [List.mem_cons, not_or] at hl
      cases m with
      | nil => exact absurd (h'.symm.trans h.1) hl.1
      | cons y m =>
          rw [List.mem_cons, not_or] at hm
          have hxy : x = y := h.1.symm.trans h'.1
          subst hxy
          rw [ih h.2 h'.2 hl.2 hm.2]

structure Ring (next : α → α) (c : α) (l : List α) : Prop where
  path : Path next c l c
  nodup : (c :: l).Nodup

namespace Ring

variable {c t : α} {l xs ys : List α}

theorem next_eq (h : Ring next c l) : next c = l.headD c := by
  cases l with
  | nil => exact h.path
  | cons x l => exact h.path.1

/-- The cell after one inside the ring. -/
theorem next_mem (h : Ring next c (xs ++ t :: ys)) : next t = ys.headD c := by
  obtain ⟨_, h2⟩ := path_append.1 h.path
  cases ys with
  | nil => exact h2
  | cons y ys => exact h2.1

theorem congr (h : Ring next c l) (hl : ∀ x ∈ c :: l, next' x = next x) : Ring next' c l :=
  ⟨h.path.congr hl, h.nodup⟩

/-- The cell `t` is put after `c`. -/
theorem insert (h : Ring next c l) (ht : t ∉ c :: l) (hc : next' c = t) (ht' : next' t = next c)
    (hl : ∀ x ∈ l, next' x = next x) : Ring next' c (t :: l) := by
  have hn : (c :: t :: l).Nodup := by
    exact (List.Perm.swap c t l).nodup_iff.1 (List.nodup_cons.2 ⟨ht, h.nodup⟩)
  refine ⟨⟨hc, ?_⟩, hn⟩
  cases l with
  | nil => exact ht'.trans h.path
  | cons x l => exact ⟨ht'.trans h.path.1, h.path.2.congr hl⟩

/-- The cell `t` is taken out: the one before it is linked to the one after it. -/
theorem remove (h : Ring next c (xs ++ t :: ys)) (hp : next' (xs.getLastD c) = next t)
    (hl : ∀ x ∈ c :: (xs ++ ys), x ≠ xs.getLastD c → next' x = next x) :
    Ring next' c (xs ++ ys) := by
  have hn : (c :: (xs ++ ys)).Nodup := by
    refine h.nodup.sublist (List.Sublist.cons_cons c ?_)
    exact List.Sublist.append_left (List.sublist_cons_self t ys) xs
  obtain ⟨h1, h2⟩ := path_append.1 h.path
  have hn1 : (c :: xs).Nodup := hn.sublist (List.Sublist.cons_cons c (List.sublist_append_left ..))
  have hx : ∀ x ∈ c :: xs, x ≠ xs.getLastD c → next' x = next x := by
    intro x hx hne
    refine hl x ?_ hne
    rw [List.mem_cons] at hx ⊢
    exact hx.imp_right fun hx => List.mem_append_left _ hx
  refine ⟨?_, hn⟩
  cases ys with
  | nil =>
      rw [List.append_nil]
      exact h1.relink hn1 (hp.trans h2) hx
  | cons y ys =>
      obtain ⟨h2, h3⟩ := h2
      refine path_append.2 ⟨h1.relink hn1 (hp.trans h2) hx, h3.congr ?_⟩
      intro x hy
      refine hl x (List.mem_cons_of_mem _ (List.mem_append_right _ hy)) fun e => ?_
      -- the cell before `t` lies in front of `ys`
      have hmem : xs.getLastD c ∈ c :: xs := List.getLastD_mem_cons
      rw [← List.cons_append, List.nodup_append] at hn
      exact hn.2.2 _ hmem x hy e.symm

/-- When `next'` with the cell `t` after `c` is a ring of one cell more, `t` is linked to the old
successor of `c`. -/
theorem of_insert {l' : List α} (h : Ring next c l) (h' : Ring next' c l') (hp : l'.Perm (t :: l))
    (hc : next' c = t) (hl : ∀ x ∈ l, next' x = next x) : next' t = next c := by
  have hcl := (List.nodup_cons.1 h.nodup).1
  have hcl' := (List.nodup_cons.1 h'.nodup).1
  have hlen := hp.length_eq
  cases l' with
  | nil => cases hlen
  | cons u m =>
      obtain rfl : u = t := h'.path.1.symm.trans hc
      have hpm : m.Perm l := hp.cons_inv
      cases m with
      | nil =>
          obtain rfl := hpm.symm.eq_nil
          exact h'.path.2.trans h.path.symm
      | cons x m =>
          have hx : next' u = x := h'.path.2.1
          obtain ⟨xs, ys, rfl⟩ := List.append_of_mem (hpm.subset (List.mem_cons_self ..))
          -- both rings lead from `x` back to `c`
          have hpath := (path_append.1 h.path).2
          have hsame : Path next' x ys c := hpath.congr fun y hy =>
            hl y (List.mem_append_right _ hy)
          have hcm : c ∉ m := fun hm =>
            hcl' (List.mem_cons_of_mem _ (List.mem_cons_of_mem _ hm))
          have hcy : c ∉ ys := fun hy =>
            hcl (List.mem_append_right _ (List.mem_cons_of_mem _ hy))
          have hys := h'.path.2.2.unique hsame hcm hcy
          subst hys
          have hlen' := hpm.length_eq
          rw [List.length_append] at hlen'
          obtain rfl := List.length_eq_zero_iff.1 (by omega : xs.length = 0)
          exact hx.trans h.path.1.symm

theorem rotate (h : Ring next c (xs ++ t :: ys)) : Ring next t (ys ++ c :: xs) := by
  obtain ⟨h1, h2⟩ := path_append.1 h.path
  refine ⟨path_append.2 ⟨h2, h1⟩, ?_⟩
  have hp : (c :: (xs ++ t :: ys)).Perm (t :: (ys ++ c :: xs)) := by
    have := @List.perm_append_comm _ (c :: xs) (t :: ys)
    rwa [List.cons_append, List.cons_append] at this
  exact hp.nodup_iff.1 h.nodup

end Ring

/-- The cells that a walk of `n` steps from `c` visits. -/
def walk (next : α → α) (c : α) (n : ℕ) : List α := (List.range n).map fun i => next^[i] c

theorem walk_succ (next : α → α) (c : α) (n : ℕ) :
    walk next c (n + 1) = c :: walk next (next c) n := by
  unfold walk
  rw [List.range_succ_eq_map, List.map_cons, List.map_map]
  rfl

theorem Path.walk {a b : α} {l : List α} (h : Path next a l b) :
    Rings.walk next a (l.length + 1) = a :: l ∧ next^[l.length + 1] a = b := by
  induction l generalizing a with
  | nil => exact ⟨rfl, h⟩
  | cons x l ih =>
      obtain ⟨rfl, h2⟩ := h
      obtain ⟨ih1, ih2⟩ := ih h2
      refine ⟨?_, ih2⟩
      rw [List.length_cons, walk_succ, ih1]

theorem path_walk (next : α → α) (c : α) (n : ℕ) :
    Path next c (walk next (next c) n) (next^[n + 1] c) := by
  induction n generalizing c with
  | zero => rfl
  | succ n ih =>
      rw [walk_succ]
      exact ⟨rfl, ih (next c)⟩

end Rings
