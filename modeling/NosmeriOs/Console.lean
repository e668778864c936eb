import NosmeriOs.Vga

/-! # What the screen shows (`drivers/vga.cpp`)

The driver refines a terminal of 25 rows and 80 columns.

* `Displays`: the cells of the terminal, its cursor and what has been written to.
* `Displays.printChar` and `Displays.printed`: a character, and a text.
* `printed_displays`: what was printed is what a terminal shows. -/

namespace NosmeriOs.Console

open Terminals

variable {α : Type}

/-- What a character does; `f` gives the glyph. -/
def key (f : UInt8 → α) (c : UInt8) : Key α :=
  if c = 10 then .newline
  else if c = 8 then .backspace
  else if c = 12 then .formFeed
  else .glyph (f c)

/-- The terminal with nothing on it. -/
def emptyTerminal : Terminal 25 80 α where
  cells _ _ := none
  row := 0
  col := 0

/-- The index of a cell. -/
def cellIndex (r : Fin 25) (c : Fin 80) : ℤ := 80 * r + c

/-- The cells of `v` are those of `T`; a cell with `o` in it may hold the words that `enc o` says. -/
structure Displays (enc : Option α → UInt16 → Prop) (T : Terminal 25 80 α) (v : Vga) : Prop where
  cells : ∀ r c, enc (T.cells r c) (v.video (cellIndex r c))
  cursor : v.cursorPos = cellIndex T.row T.col
  crtc : (v.crtc.cursor : ℤ) = v.cursorPos
  stores : ∀ i ∈ v.stores, 0 ≤ i ∧ i < 2000

theorem cellIndex_range (r : Fin 25) (c : Fin 80) : 0 ≤ cellIndex r c ∧ cellIndex r c < 2000 := by
  unfold cellIndex
  omega

theorem cellIndex_inj {r r' : Fin 25} {c c' : Fin 80} (h : cellIndex r c = cellIndex r' c') :
    r = r' ∧ c = c' := by
  unfold cellIndex at h
  omega

variable {enc : Option α → UInt16 → Prop} {T : Terminal 25 80 α} {v : Vga}

/-- A screen whose cursor has still to be moved. -/
structure Drawn (enc : Option α → UInt16 → Prop) (T : Terminal 25 80 α) (v : Vga) : Prop where
  cells : ∀ r c, enc (T.cells r c) (v.video (cellIndex r c))
  stores : ∀ i ∈ v.stores, 0 ≤ i ∧ i < 2000

theorem Drawn.moved (h : Drawn enc T v) (p : ℤ) : Drawn enc T { v with cursorPos := p } :=
  ⟨h.cells, h.stores⟩

theorem Drawn.place (h : Drawn enc T v) (r : Fin 25) (c : Fin 80) :
    Drawn enc { T with row := r, col := c } v := ⟨h.cells, h.stores⟩

theorem Drawn.updateCursor (h : Drawn enc T v) (hc : v.cursorPos = cellIndex T.row T.col) :
    Displays enc T (v.updateCursor (Int16.ofInt v.cursorPos)) := by
  have hrange := cellIndex_range T.row T.col
  rw [← hc] at hrange
  exact ⟨h.cells, hc, cursor_updateCursor v hrange.1 hrange.2, h.stores⟩

theorem Drawn.setCell (h : Drawn enc T v) {o : Option α} {w : UInt16} (hw : enc o w)
    (r : Fin 25) (c : Fin 80) : Drawn enc (T.setCell r c o) (v.store (cellIndex r c) w) := by
  refine ⟨fun r' c' => ?_, fun i hi => ?_⟩
  · unfold Vga.store Terminal.setCell
    dsimp only
    rw [Function.update_apply]
    by_cases heq : r' = r ∧ c' = c
    · rw [if_pos heq, if_pos (by rw [heq.1, heq.2])]
      exact hw
    · rw [if_neg heq, if_neg fun e => heq (cellIndex_inj e)]
      exact h.cells r' c'
  · obtain rfl | hi := List.mem_cons.1 hi
    · exact cellIndex_range r c
    · exact h.stores i hi

theorem displays_clearScreen (hblank : enc none v.blank)
    (hs : ∀ i ∈ v.stores, 0 ≤ i ∧ i < 2000) : Displays enc emptyTerminal v.clearScreen := by
  have hdrawn : Drawn enc emptyTerminal (v.blanks 0 (VGA_WIDTH * VGA_HEIGHT)) := by
    have hsize : VGA_WIDTH * VGA_HEIGHT = 2000 := rfl
    rw [hsize, Vga.blanks_eq]
    refine ⟨fun r c => ?_, fun i hi => ?_⟩
    · have hrange := cellIndex_range r c
      dsimp only
      rw [if_pos (by omega)]
      exact hblank
    · obtain hi | hi := List.mem_append.1 hi
      · obtain ⟨j, hj, rfl⟩ := List.mem_map.1 hi
        have hlt := List.mem_range.1 (List.mem_reverse.1 hj)
        omega
      · exact hs i hi
  exact (hdrawn.moved 0).updateCursor (by simp [cellIndex, emptyTerminal])

theorem Displays.drawn (h : Displays enc T v) : Drawn enc T v := ⟨h.cells, h.stores⟩

/-- The terminal scrolls where the driver does. -/
theorem Drawn.scrollScreen (h : Drawn enc T v) (hblank : enc none v.blank) :
    Displays enc { T.scroll with row := 24, col := 0 } v.scrollScreen := by
  have hlast : VGA_WIDTH * (VGA_HEIGHT - 1) = 1920 := rfl
  have hw : VGA_WIDTH = 80 := rfl
  have hdrawn : Drawn enc { T.scroll with row := 24, col := 0 }
      ((v.shiftUp 1920).blanks 1920 80) := by
    rw [Vga.blanks_eq, Vga.shiftUp_eq, hw]
    refine ⟨fun r c => ?_, fun i hi => ?_⟩
    · unfold Terminal.scroll cellIndex
      dsimp only
      by_cases hr : r.val + 1 < 25
      · -- the cell comes from the row below
        have hbelow := h.cells ⟨r + 1, hr⟩ c
        unfold cellIndex at hbelow
        rw [dif_pos hr, if_neg (by omega), if_pos (by omega)]
        convert hbelow using 2
        push_cast
        ring
      · rw [dif_neg hr, if_pos (by omega)]
        exact hblank
    · obtain hi | hi := List.mem_append.1 hi
      · obtain ⟨j, hj, rfl⟩ := List.mem_map.1 hi
        have hlt := List.mem_range.1 (List.mem_reverse.1 hj)
        omega
      · obtain hi | hi := List.mem_append.1 hi
        · obtain ⟨j, hj, rfl⟩ := List.mem_map.1 hi
          have hlt := List.mem_range.1 (List.mem_reverse.1 hj)
          omega
        · exact h.stores i hi
  exact (hdrawn.moved 1920).updateCursor (by simp [cellIndex])

theorem Drawn.finish (h : Drawn enc T v) (hc : v.cursorPos = cellIndex T.row T.col) :
    Displays enc T v.finish := by
  have hrange := cellIndex_range T.row T.col
  have hsize : (VGA_WIDTH * VGA_HEIGHT : ℤ) = 2000 := rfl
  unfold Vga.finish
  rw [hsize, if_neg (by omega)]
  exact h.updateCursor hc

/-- The cursor goes to the next row. -/
theorem Drawn.finish_nextRow (h : Drawn enc T v) (hblank : enc none v.blank)
    (hc : v.cursorPos = 80 * (T.row + 1)) : Displays enc T.nextRow v.finish := by
  have hsize : (VGA_WIDTH * VGA_HEIGHT : ℤ) = 2000 := rfl
  unfold Terminal.nextRow
  split_ifs with hr
  · apply (h.place ⟨T.row + 1, hr⟩ ⟨0, T.col.pos⟩).finish
    unfold cellIndex
    push_cast
    omega
  · have hrow : T.row = 24 := by omega
    have hlast : ({ T.scroll with col := ⟨0, T.col.pos⟩ } : Terminal 25 80 α) =
        { T.scroll with row := 24, col := 0 } := by
      unfold Terminal.scroll
      rw [hrow]
      rfl
    have hscroll := h.scrollScreen hblank
    unfold Vga.finish
    rw [hsize, if_pos (by omega), hlast]
    exact hscroll.drawn.updateCursor hscroll.cursor

/-- A character does on the screen what its key does at the terminal. -/
theorem Displays.printChar (h : Displays enc T v) (f : UInt8 → α) (c : UInt8)
    (hblank : enc none v.blank) (hglyph : enc (some (f c)) (cellOf v.textAttribute c)) :
    Displays enc (T.step (key f c)) (v.printChar c) := by
  have hcur := h.cursor
  have hrange := cellIndex_range T.row T.col
  have hw : (VGA_WIDTH : ℤ) = 80 := rfl
  unfold key Vga.printChar
  split_ifs with h10 h8 hpos h12
  · -- newline
    refine (h.drawn.moved _).finish_nextRow hblank ?_
    dsimp only
    rw [hw, Int.tdiv_eq_ediv_of_nonneg (by omega), hcur]
    unfold cellIndex
    omega
  · -- backspace after the first cell
    show Displays enc T.backspace _
    have hback : ∀ r c, v.cursorPos - 1 = cellIndex r c → Displays enc
        { T.setCell r c none with row := r, col := c }
        (({ v with cursorPos := v.cursorPos - 1 } : Vga).store (v.cursorPos - 1) v.blank).finish := by
      intro r c hp
      have hset := ((h.drawn.moved (v.cursorPos - 1)).setCell hblank r c).place r c
      rw [← hp] at hset
      exact hset.finish hp
    unfold Terminal.backspace
    split_ifs with hcol hrow
    · apply hback
      unfold cellIndex at hcur ⊢
      push_cast
      omega
    · apply hback
      unfold cellIndex at hcur ⊢
      push_cast
      omega
    · unfold cellIndex at hcur
      omega
  · -- and on it
    show Displays enc T.backspace _
    unfold cellIndex at hcur
    unfold Terminal.backspace
    rw [if_neg (by omega), if_neg (by omega)]
    exact h.drawn.finish h.cursor
  · exact displays_clearScreen hblank h.stores
  · -- a glyph
    show Displays enc (T.setCell T.row T.col (some (f c))).advance _
    have hset := h.drawn.setCell hglyph T.row T.col
    rw [← hcur] at hset
    unfold Terminal.advance
    split_ifs with hcol
    · apply ((hset.moved (v.cursorPos + 1)).place T.row ⟨T.col + 1, hcol⟩).finish
      dsimp only
      rw [hcur]
      unfold cellIndex
      push_cast
      omega
    · apply (hset.moved (v.cursorPos + 1)).finish_nextRow hblank
      dsimp only
      have hlast : ¬ T.col.val + 1 < 80 := hcol
      have hrow : (T.setCell T.row T.col (some (f c))).row = T.row := rfl
      rw [hrow, hcur]
      unfold cellIndex
      omega

/-! ### Texts -/

theorem textAttribute_foldl (v : Vga) (cs : List UInt8) :
    (cs.foldl Vga.printChar v).textAttribute = v.textAttribute := by
  induction cs generalizing v with
  | nil => rfl
  | cons c cs ih => rw [List.foldl_cons, ih, Vga.textAttribute_printChar]

theorem Displays.foldl (h : Displays enc T v) (f : UInt8 → α) (hblank : enc none v.blank)
    {cs : List UInt8} (hglyph : ∀ c ∈ cs, enc (some (f c)) (cellOf v.textAttribute c)) :
    Displays enc (T.run (cs.map (key f))) (cs.foldl Vga.printChar v) := by
  induction cs generalizing T v with
  | nil => exact h
  | cons c cs ih =>
      refine ih (h.printChar f c hblank (hglyph c List.mem_cons_self)) ?_ fun c' hc' => ?_
      · unfold Vga.blank
        rw [Vga.textAttribute_printChar]
        exact hblank
      · rw [Vga.textAttribute_printChar]
        exact hglyph c' (List.mem_cons_of_mem _ hc')

/-- The screen and both cursors are those of the terminal. -/
structure Refines (v : Vga) (T : Terminal 25 80 UInt8) : Prop where
  cursor_nonneg : 0 ≤ v.cursorPos
  cursor_lt : v.cursorPos < 2000
  stores : ∀ i ∈ v.stores, 0 ≤ i ∧ i < 2000
  glyphs : ∀ (r : Fin 25) (c : Fin 80), glyph (v.video (80 * r + c)) = (T.cells r c).getD 32
  cursor : v.cursorPos = 80 * T.row + T.col
  displayed : (v.crtc.cursor : ℤ) = v.cursorPos

/-- **The console shows what was printed**, whatever the bytes are. -/
theorem printed_refines (v : Vga) (cs : List UInt8) :
    Refines (cs.foldl Vga.printChar { v with stores := [] }.vgaInit)
      (emptyTerminal.run (cs.map (key id))) := by
  have hinit : Displays (fun o w => glyph w = o.getD 32) emptyTerminal
      { v with stores := [] }.vgaInit := displays_clearScreen (glyph_cellOf ..) (by simp)
  have h : Displays _ (emptyTerminal.run (cs.map (key id)))
      (cs.foldl Vga.printChar { v with stores := [] }.vgaInit) :=
    hinit.foldl id (glyph_cellOf ..) fun c _ => glyph_cellOf ..
  have hrange := cellIndex_range (emptyTerminal.run (cs.map (key id))).row
    (emptyTerminal.run (cs.map (key id))).col
  rw [← h.cursor] at hrange
  exact ⟨hrange.1, hrange.2, h.stores, h.cells, h.cursor, h.crtc⟩

/-! ### Colours -/

inductive Stream where
  | stdout
  | stderr
deriving DecidableEq

/-- Light grey on black, and red on black. -/
def Stream.colour : Stream → UInt8
  | .stdout => 0x07
  | .stderr => 0x04

/-- A call of `stdout_write` or `stderr_write`. -/
structure Write where
  stream : Stream
  buf : ℕ → UInt8
  count : UInt32

def Write.bytes (w : Write) : List UInt8 := (List.range w.count.toNat).map w.buf

def Vga.write (v : Vga) (w : Write) : Vga :=
  match w.stream with
  | .stdout => (v.stdoutWrite w.buf w.count).2
  | .stderr => (v.stderrWrite w.buf w.count).2

/-- A glyph, with the stream that it was written to. -/
structure Printed where
  stream : Stream
  byte : UInt8

def Write.keys (w : Write) : List (Key Printed) := w.bytes.map (key (Printed.mk w.stream))

/-- What a terminal shows after the calls. -/
def screenOf (ws : List Write) : Terminal 25 80 Printed := emptyTerminal.run (ws.flatMap Write.keys)

/-- The screen cleared, light grey on black, with no store recorded. -/
def Vga.cleared (v : Vga) : Vga :=
  ({ v with stores := [] }.setTextColor VGA_COLOR_LIGHT_GREY VGA_COLOR_BLACK).clearScreen

/-- Each glyph on the screen has the colour of its stream. -/
def Coloured (ws : List Write) (v : Vga) : Prop := ∀ (r : Fin 25) (c : Fin 80) (p : Printed),
  (screenOf ws).cells r c = some p → attrByte (v.video (80 * r + c)) = p.stream.colour

/-- What a cell holds after a glyph was printed there, or a blank. -/
def PrintedCell (o : Option Printed) (w : UInt16) : Prop :=
  match o with
  | none => glyph w = 32
  | some p => w = cellOf p.stream.colour p.byte

theorem Displays.setTextColor (h : Displays enc T v) (fg bg : UInt8) :
    Displays enc T (v.setTextColor fg bg) := ⟨h.cells, h.cursor, h.crtc, h.stores⟩

/-- The stream's text is printed in the stream's colour. -/
theorem Displays.printChars {T : Terminal 25 80 Printed} (h : Displays PrintedCell T v) (w : Write)
    (hattr : v.textAttribute = w.stream.colour) :
    Displays PrintedCell (T.run w.keys) (v.printChars w.buf w.count) ∧
      (v.printChars w.buf w.count).textAttribute = w.stream.colour := by
  have hfold : v.printChars w.buf w.count = w.bytes.foldl Vga.printChar v :=
    List.foldl_map.symm
  rw [hfold]
  refine ⟨h.foldl _ (glyph_cellOf ..) fun c _ => ?_, (textAttribute_foldl ..).trans hattr⟩
  rw [hattr]
  rfl

theorem Displays.write {T : Terminal 25 80 Printed} (h : Displays PrintedCell T v)
    (hattr : v.textAttribute = 0x07) (w : Write) :
    Displays PrintedCell (T.run w.keys) (v.write w) ∧ (v.write w).textAttribute = 0x07 := by
  obtain ⟨stream, buf, count⟩ := w
  cases stream with
  | stdout => exact h.printChars ⟨.stdout, buf, count⟩ hattr
  | stderr =>
      have hred := (h.setTextColor VGA_COLOR_RED VGA_COLOR_BLACK).printChars ⟨.stderr, buf, count⟩ rfl
      exact ⟨hred.1.setTextColor _ _, rfl⟩

theorem Displays.writes {T : Terminal 25 80 Printed} (h : Displays PrintedCell T v)
    (hattr : v.textAttribute = 0x07) (ws : List Write) :
    Displays PrintedCell (T.run (ws.flatMap Write.keys)) (ws.foldl Vga.write v) ∧
      (ws.foldl Vga.write v).textAttribute = 0x07 := by
  induction ws generalizing T v with
  | nil => exact ⟨h, hattr⟩
  | cons w ws ih =>
      obtain ⟨hw, hattr'⟩ := h.write hattr w
      rw [List.flatMap_cons, Terminal.run_append]
      exact ih hw hattr'

/-- The writes from a cleared screen on. -/
theorem displays_writes (v : Vga) (ws : List Write) :
    Displays PrintedCell (screenOf ws) (ws.foldl Vga.write v.cleared) ∧
      (ws.foldl Vga.write v.cleared).textAttribute = 0x07 := by
  have hcleared : Displays PrintedCell emptyTerminal v.cleared :=
    displays_clearScreen (glyph_cellOf ..) fun i hi => by cases hi
  exact hcleared.writes (Vga.textAttribute_clearScreen ..) ws

/-- Bytes on the screen have been written. -/
theorem shown_screenOf {P : UInt8 → Prop} {ws : List Write} (h : ∀ w ∈ ws, ∀ b ∈ w.bytes, P b) :
    (screenOf ws).Shown fun p => P p.byte := by
  have hempty : (emptyTerminal : Terminal 25 80 Printed).Shown fun p => P p.byte :=
    fun r c p hp => by cases hp
  refine hempty.run fun p hp => ?_
  obtain ⟨w, hw, hp⟩ := List.mem_flatMap.1 hp
  obtain ⟨b, hb, he⟩ := List.mem_map.1 hp
  unfold key at he
  split_ifs at he
  cases he
  exact h w hw b hb

/-- No stream has the colour that a byte from `0x80` on gets. -/
theorem attrByte_eq_colour_iff (p : Printed) :
    attrByte (cellOf p.stream.colour p.byte) = p.stream.colour ↔ p.byte < 0x80 := by
  rw [attrByte_cellOf]
  split_ifs with h
  · simp [h]
  · have hne : ∀ s : Stream, (0xFF : UInt8) ≠ s.colour := fun s => by cases s <;> decide
    simp [h, hne]

/-- What is in a cell with a glyph. -/
theorem video_writes (v : Vga) (ws : List Write) {r : Fin 25} {c : Fin 80} {p : Printed}
    (hp : (screenOf ws).cells r c = some p) :
    (ws.foldl Vga.write v.cleared).video (80 * r + c) = cellOf p.stream.colour p.byte := by
  have hcell := (displays_writes v ws).1.cells r c
  rw [hp] at hcell
  exact hcell

/-- The glyphs are those of the terminal. -/
theorem glyph_writes (v : Vga) (ws : List Write) (r : Fin 25) (c : Fin 80) :
    glyph ((ws.foldl Vga.write v.cleared).video (80 * r + c)) =
      (((screenOf ws).cells r c).map Printed.byte).getD 32 := by
  cases hp : (screenOf ws).cells r c with
  | some p => rw [video_writes v ws hp, glyph_cellOf, Option.map_some, Option.getD_some]
  | none =>
      have hcell := (displays_writes v ws).1.cells r c
      rw [hp] at hcell
      exact hcell

theorem coloured_writes_iff (v : Vga) (ws : List Write) :
    Coloured ws (ws.foldl Vga.write v.cleared) ↔ (screenOf ws).Shown fun p => p.byte < 0x80 := by
  refine forall_congr' fun r => forall_congr' fun c => forall_congr' fun p => ?_
  refine imp_congr_right fun hp => ?_
  rw [video_writes v ws hp, attrByte_eq_colour_iff]

/-- **Where the colours follow the streams**: exactly if no byte from `0x80` on is on the screen,
and so if none was written.  Between the calls the attribute is always light grey on black. -/
theorem writes_coloured_iff (v : Vga) (ws : List Write) :
    (ws.foldl Vga.write v.cleared).textAttribute = 0x07 ∧
    (∀ (r : Fin 25) (c : Fin 80), glyph ((ws.foldl Vga.write v.cleared).video (80 * r + c)) =
      (((screenOf ws).cells r c).map Printed.byte).getD 32) ∧
    (Coloured ws (ws.foldl Vga.write v.cleared) ↔
      ∀ r c p, (screenOf ws).cells r c = some p → p.byte < 0x80) ∧
    ((∀ w ∈ ws, ∀ b ∈ w.bytes, b < 0x80) → Coloured ws (ws.foldl Vga.write v.cleared)) :=
  ⟨(displays_writes v ws).2, glyph_writes v ws, coloured_writes_iff v ws, fun h =>
    (coloured_writes_iff v ws).2 (shown_screenOf h)⟩

/-- A black screen. -/
def blackVga : Vga := ⟨fun _ => 0, 0, 0x07, ⟨0, fun _ => 0⟩, []⟩

/-- A letter on each stream. -/
def letters : List Write := [⟨.stdout, fun _ => 65, 1⟩, ⟨.stderr, fun _ => 66, 1⟩]

theorem letters_coloured : Coloured letters (letters.foldl Vga.write blackVga.cleared) := by
  refine (writes_coloured_iff blackVga letters).2.2.2 fun w hw b hb => ?_
  obtain ⟨i, -, rfl⟩ := List.mem_map.1 hb
  obtain rfl | rfl := List.mem_pair.1 hw
  · exact show (65 : UInt8) < 0x80 by decide
  · exact show (66 : UInt8) < 0x80 by decide

/-- The byte `0x80` on `stdout`. -/
def highWrite : Write := ⟨.stdout, fun _ => 0x80, 1⟩

/-- It is printed white on white. -/
theorem not_coloured_highWrite : ¬ ∀ (v : Vga) (ws : List Write),
    Coloured ws (ws.foldl Vga.write v.cleared) := by
  intro hall
  have hshown : (screenOf [highWrite]).cells 0 0 = some ⟨.stdout, 0x80⟩ := by rfl
  have hlt := (coloured_writes_iff blackVga [highWrite]).1 (hall _ _) 0 0 _ hshown
  exact absurd hlt (by decide)

end NosmeriOs.Console
