import Mathlib.Data.Fin.Basic
import Mathlib.Tactic.SplitIfs

/-! # Character terminals

A terminal is a screen of cells with a cursor on it.  A key either moves the cursor or puts a
glyph where it stands.

* `Terminal.step`: the wrap at the last column, the scroll at the last row.
* `Shown`: what holds of all glyphs on the screen. -/

namespace Terminals

variable {α : Type*}

inductive Key (α : Type*) where
  | newline
  | backspace
  | formFeed
  | glyph (a : α)

/-- A cell is blank or shows a glyph. -/
structure Terminal (rows cols : ℕ) (α : Type*) where
  cells : Fin rows → Fin cols → Option α
  row : Fin rows
  col : Fin cols

namespace Terminal

variable {rows cols : ℕ} (T : Terminal rows cols α)

def setCell (r : Fin rows) (c : Fin cols) (o : Option α) : Terminal rows cols α :=
  { T with cells := fun r' c' => if r' = r ∧ c' = c then o else T.cells r' c' }

/-- The first row is lost, and the last one is blank. -/
def scroll : Terminal rows cols α :=
  { T with cells := fun r c => if h : r.val + 1 < rows then T.cells ⟨r + 1, h⟩ c else none }

/-- To the first column of the next row, which is opened if there is none. -/
def nextRow : Terminal rows cols α :=
  if h : T.row.val + 1 < rows then { T with row := ⟨T.row + 1, h⟩, col := ⟨0, T.col.pos⟩ }
  else { T.scroll with col := ⟨0, T.col.pos⟩ }

def advance : Terminal rows cols α :=
  if h : T.col.val + 1 < cols then { T with col := ⟨T.col + 1, h⟩ } else T.nextRow

/-- To the cell before, which becomes blank; nothing comes before the first cell. -/
def backspace : Terminal rows cols α :=
  if 0 < T.col.val then
    let c : Fin cols := ⟨T.col - 1, by omega⟩
    { T.setCell T.row c none with col := c }
  else if 0 < T.row.val then
    let r : Fin rows := ⟨T.row - 1, by omega⟩
    let c : Fin cols := ⟨cols - 1, Nat.sub_lt T.col.pos Nat.one_pos⟩
    { T.setCell r c none with row := r, col := c }
  else T

def clear : Terminal rows cols α where
  cells _ _ := none
  row := ⟨0, T.row.pos⟩
  col := ⟨0, T.col.pos⟩

def step : Key α → Terminal rows cols α
  | .newline => T.nextRow
  | .backspace => T.backspace
  | .formFeed => T.clear
  | .glyph a => (T.setCell T.row T.col (some a)).advance

def run (ks : List (Key α)) : Terminal rows cols α := ks.foldl step T

@[simp] theorem run_nil : T.run [] = T := rfl

theorem run_append (ks ks' : List (Key α)) : T.run (ks ++ ks') = (T.run ks).run ks' :=
  List.foldl_append

/-- All glyphs on the screen have the property. -/
def Shown (P : α → Prop) : Prop := ∀ r c a, T.cells r c = some a → P a

variable {T} {P : α → Prop}

namespace Shown

theorem clear : T.clear.Shown P := fun _ _ _ h => by cases h

theorem setCell (h : T.Shown P) {r : Fin rows} {c : Fin cols} {o : Option α}
    (ho : ∀ a, o = some a → P a) : (T.setCell r c o).Shown P := by
  intro r' c' a ha
  unfold Terminal.setCell at ha
  dsimp only at ha
  split_ifs at ha
  · exact ho a ha
  · exact h r' c' a ha

theorem nextRow (h : T.Shown P) : T.nextRow.Shown P := by
  intro r c a ha
  unfold Terminal.nextRow at ha
  split_ifs at ha
  · exact h r c a ha
  · unfold Terminal.scroll at ha
    dsimp only at ha
    split_ifs at ha
    exact h _ c a ha

theorem step (h : T.Shown P) {k : Key α} (hk : ∀ a, k = .glyph a → P a) : (T.step k).Shown P := by
  cases k with
  | newline => exact h.nextRow
  | formFeed => exact (clear : T.clear.Shown P)
  | backspace =>
      have hnone : ∀ a, (none : Option α) = some a → P a := fun a ha => by cases ha
      show T.backspace.Shown P
      unfold Terminal.backspace
      split_ifs
      · exact h.setCell hnone
      · exact h.setCell hnone
      · exact h
  | glyph b =>
      have hset := @setCell _ _ _ T P h T.row T.col (some b) fun a ha => by
        cases ha
        exact hk b rfl
      show (Terminal.advance _).Shown P
      unfold Terminal.advance
      split_ifs
      · exact hset
      · exact hset.nextRow

theorem run (h : T.Shown P) {ks : List (Key α)} (hk : ∀ a, .glyph a ∈ ks → P a) :
    (T.run ks).Shown P := by
  induction ks generalizing T with
  | nil => exact h
  | cons k ks ih =>
      refine ih (h.step fun a ha => hk a ?_) fun a ha => hk a (List.mem_cons_of_mem _ ha)
      rw [ha]
      exact List.mem_cons_self

end Shown

end Terminal

end Terminals
