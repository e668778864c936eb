import Mathlib.Data.List.Range
import Mathlib.Data.UInt
import Mathlib.Tactic
import NosmeriOs.Terminal

/-! # The text screen (`drivers/vga.cpp`) -/

namespace NosmeriOs.Console

def VGA_COLOR_BLACK : UInt8 := 0
def VGA_COLOR_RED : UInt8 := 4
def VGA_COLOR_LIGHT_GREY : UInt8 := 7

def VGA_WIDTH : ℕ := 80
def VGA_HEIGHT : ℕ := 25

/-- The registers of the display controller, behind the ports `0x3D4` and `0x3D5`. -/
structure Crtc where
  index : UInt8
  register : UInt8 → UInt8

def Crtc.outb (c : Crtc) (port : UInt16) (val : UInt8) : Crtc :=
  if port = 0x3D4 then { c with index := val }
  else if port = 0x3D5 then { c with register := Function.update c.register c.index val }
  else c

/-- Where the cursor is displayed. -/
def Crtc.cursor (c : Crtc) : ℕ := (c.register 0x0E).toNat * 256 + (c.register 0x0F).toNat

/-- The state of the driver; `stores` are the indices of `VIDEO_MEMORY` written to, the last one
first. -/
structure Vga where
  video : ℤ → UInt16
  cursorPos : ℤ
  textAttribute : UInt8
  crtc : Crtc
  stores : List ℤ

/-- `(text_attribute << 8) | c`, where `c` is a `char`, which is signed. -/
def cellOf (textAttribute c : UInt8) : UInt16 :=
  (textAttribute.toUInt16 <<< 8) ||| c.toInt8.toInt16.toUInt16

/-- The low byte of a cell. -/
def glyph (cell : UInt16) : UInt8 := cell.toUInt8

/-- Its high byte. -/
def attrByte (cell : UInt16) : UInt8 := (cell >>> 8).toUInt8

namespace Vga

def store (v : Vga) (i : ℤ) (cell : UInt16) : Vga :=
  { v with video := Function.update v.video i cell, stores := i :: v.stores }

/-- A space. -/
def blank (v : Vga) : UInt16 := cellOf v.textAttribute 32

def updateCursor (v : Vga) (pos : Int16) : Vga :=
  let crtc := v.crtc.outb 0x3D4 0x0F
  let crtc := crtc.outb 0x3D5 (pos &&& 0xFF).toInt8.toUInt8
  let crtc := crtc.outb 0x3D4 0x0E
  { v with crtc := crtc.outb 0x3D5 ((pos >>> 8) &&& 0xFF).toInt8.toUInt8 }

def setTextColor (v : Vga) (fg bg : UInt8) : Vga :=
  { v with textAttribute := (bg <<< 4) ||| (fg &&& 0x0F) }

/-- The loop that stores `n` spaces from index `lo` on. -/
def blanks (v : Vga) (lo n : ℕ) : Vga :=
  (List.range n).foldl (fun (v : Vga) (i : ℕ) => v.store (lo + i) v.blank) v

def clearScreen (v : Vga) : Vga :=
  let v := v.blanks 0 (VGA_WIDTH * VGA_HEIGHT)
  let v := { v with cursorPos := 0 }
  v.updateCursor (Int16.ofInt v.cursorPos)

/-- The loop that moves `n` cells up by a line. -/
def shiftUp (v : Vga) (n : ℕ) : Vga :=
  (List.range n).foldl (fun (v : Vga) (i : ℕ) => v.store i (v.video (i + VGA_WIDTH))) v

def scrollScreen (v : Vga) : Vga :=
  let v := v.shiftUp (VGA_WIDTH * (VGA_HEIGHT - 1))
  let v := v.blanks (VGA_WIDTH * (VGA_HEIGHT - 1)) VGA_WIDTH
  let v := { v with cursorPos := VGA_WIDTH * (VGA_HEIGHT - 1) }
  v.updateCursor (Int16.ofInt v.cursorPos)

def vgaInit (v : Vga) : Vga := v.clearScreen

/-- What `print_char` does after a character other than form feed. -/
def finish (v : Vga) : Vga :=
  let v := if VGA_WIDTH * VGA_HEIGHT ≤ v.cursorPos then v.scrollScreen else v
  v.updateCursor (Int16.ofInt v.cursorPos)

def printChar (v : Vga) (c : UInt8) : Vga :=
  if c = 10 then { v with cursorPos := (v.cursorPos.tdiv VGA_WIDTH + 1) * VGA_WIDTH }.finish
  else if c = 8 then
    if 0 < v.cursorPos then
      let v := { v with cursorPos := v.cursorPos - 1 }
      (v.store v.cursorPos v.blank).finish
    else v.finish
  else if c = 12 then v.clearScreen
  else
    let v := v.store v.cursorPos (cellOf v.textAttribute c)
    { v with cursorPos := v.cursorPos + 1 }.finish

/-- `print_char` for `count` characters of a buffer. -/
def printChars (v : Vga) (cbuf : ℕ → UInt8) (count : UInt32) : Vga :=
  (List.range count.toNat).foldl (fun (v : Vga) (i : ℕ) => v.printChar (cbuf i)) v

def stdoutWrite (v : Vga) (buf : ℕ → UInt8) (count : UInt32) : ℤ × Vga :=
  (count.toInt32.toInt, v.printChars buf count)

def stderrWrite (v : Vga) (buf : ℕ → UInt8) (count : UInt32) : ℤ × Vga :=
  let v := v.setTextColor VGA_COLOR_RED VGA_COLOR_BLACK
  let v := v.printChars buf count
  (count.toInt32.toInt, v.setTextColor VGA_COLOR_LIGHT_GREY VGA_COLOR_BLACK)

end Vga

/-! ### Bytes of cells and of the cursor -/

theorem getElem_ff : ∀ i, (h : i < 8) → (255#8)[i] = true := by decide

@[simp] theorem glyph_cellOf (a c : UInt8) : glyph (cellOf a c) = c := by
  apply UInt8.eq_of_toBitVec_eq
  apply BitVec.eq_of_getLsbD_eq
  intro i hi
  simp [glyph, cellOf, UInt16.toBitVec_shiftLeft, BitVec.getLsbD_signExtend, hi]
  omega

/-- A character from `0x80` on is negative, and sets all bits of the attribute. -/
theorem attrByte_cellOf (a c : UInt8) :
    attrByte (cellOf a c) = if c < 0x80 then a else 0xFF := by
  have hmsb : c.toBitVec.msb = decide (0x80 ≤ c) := by
    rw [BitVec.msb_eq_decide]
    rfl
  apply UInt8.eq_of_toBitVec_eq
  apply BitVec.eq_of_getElem_eq
  intro i hi
  have hlow : 8 + i < 16 := by omega
  have hsign : (c.toBitVec.signExtend 16)[8 + i] = decide (0x80 ≤ c) := by
    rw [BitVec.getElem_signExtend, dif_neg (by omega), hmsb]
  split_ifs with h
  · have h' : ¬ 0x80 ≤ c := UInt8.not_le.2 h
    simp [attrByte, cellOf, UInt16.toBitVec_shiftLeft, UInt16.toBitVec_shiftRight, hi, hlow,
      hsign, h']
  · have h' : 0x80 ≤ c := UInt8.not_lt.1 h
    simp [attrByte, cellOf, UInt16.toBitVec_shiftLeft, UInt16.toBitVec_shiftRight, hi, hlow,
      hsign, h', getElem_ff i hi]

theorem toNat_lowByte (pos : Int16) :
    (pos &&& 0xFF).toInt8.toUInt8.toNat = pos.toBitVec.toNat % 256 := by
  have h : (pos &&& 0xFF).toInt8.toUInt8.toBitVec = pos.toBitVec.setWidth 8 := by
    apply BitVec.eq_of_getElem_eq
    intro i hi
    have hlt : i < 16 := by omega
    simp [getElem_ff i hi, BitVec.getElem_signExtend, hlt]
  exact (congrArg BitVec.toNat h).trans (BitVec.toNat_setWidth ..)

theorem toNat_highByte (pos : Int16) :
    ((pos >>> 8) &&& 0xFF).toInt8.toUInt8.toNat = pos.toBitVec.toNat / 256 := by
  have h : ((pos >>> 8) &&& 0xFF).toInt8.toUInt8.toBitVec = (pos.toBitVec >>> 8).setWidth 8 := by
    apply BitVec.eq_of_getElem_eq
    intro i hi
    have hlt : i < 16 := by omega
    simp [getElem_ff i hi, BitVec.getElem_signExtend, hlt]
    rw [BitVec.getElem_sshiftRight, dif_pos (by omega), BitVec.getLsbD_eq_getElem (by omega)]
  have hlt := pos.toBitVec.isLt
  refine (congrArg BitVec.toNat h).trans ?_
  rw [BitVec.toNat_setWidth, BitVec.toNat_ushiftRight, Nat.shiftRight_eq_div_pow]
  omega

namespace Crtc

theorem outb_index (c : Crtc) (val : UInt8) : c.outb 0x3D4 val = { c with index := val } := if_pos rfl

theorem outb_register (c : Crtc) (val : UInt8) :
    c.outb 0x3D5 val = { c with register := Function.update c.register c.index val } := by
  unfold outb
  rw [if_neg (by decide), if_pos rfl]

end Crtc

/-- The controller gets both bytes of the position. -/
theorem cursor_updateCursor (v : Vga) {p : ℤ} (h0 : 0 ≤ p) (h : p < 2000) :
    ((v.updateCursor (Int16.ofInt p)).crtc.cursor : ℤ) = p := by
  have hpos : ((Int16.ofInt p).toBitVec.toNat : ℤ) = p := by
    rw [Int16.toBitVec_ofInt, BitVec.toNat_ofInt]
    omega
  unfold Vga.updateCursor Crtc.cursor
  simp only [Crtc.outb_index, Crtc.outb_register]
  rw [Function.update_self, Function.update_of_ne (by decide), Function.update_self,
    toNat_highByte, toNat_lowByte]
  omega

/-! ### The loops -/

namespace Vga

variable (v : Vga)

theorem blanks_eq (lo n : ℕ) : v.blanks lo n =
    { v with
      video := fun i => if (lo : ℤ) ≤ i ∧ i < lo + n then v.blank else v.video i
      stores := (List.range n).reverse.map (fun i : ℕ => (lo : ℤ) + i) ++ v.stores } := by
  induction n with
  | zero =>
      have hno : ∀ i : ℤ, ¬ ((lo : ℤ) ≤ i ∧ i < lo + (0 : ℕ)) := fun i => by omega
      simp only [blanks, hno, if_false]
      rfl
  | succ n ih =>
      have hstep : v.blanks lo (n + 1) = (v.blanks lo n).store (lo + n) (v.blanks lo n).blank := by
        unfold blanks
        rw [List.range_succ, List.foldl_append]
        rfl
      rw [hstep, ih, List.range_succ, List.reverse_append]
      unfold store blank
      congr 1
      funext i
      dsimp only
      rw [Function.update_apply]
      by_cases hi : i = lo + n
      · rw [if_pos hi, if_pos (by omega)]
      · have hiff : (lo : ℤ) ≤ i ∧ i < lo + (n + 1 : ℕ) ↔ (lo : ℤ) ≤ i ∧ i < lo + n := by omega
        rw [if_neg hi, if_congr hiff rfl rfl]

/-- The cell that is read has not been written to yet. -/
theorem shiftUp_eq (n : ℕ) : v.shiftUp n =
    { v with
      video := fun i => if 0 ≤ i ∧ i < n then v.video (i + VGA_WIDTH) else v.video i
      stores := (List.range n).reverse.map (fun i : ℕ => (i : ℤ)) ++ v.stores } := by
  induction n with
  | zero =>
      have hno : ∀ i : ℤ, ¬ (0 ≤ i ∧ i < (0 : ℕ)) := fun i => by omega
      simp only [shiftUp, hno, if_false]
      rfl
  | succ n ih =>
      have hstep : v.shiftUp (n + 1) =
          (v.shiftUp n).store n ((v.shiftUp n).video (n + VGA_WIDTH)) := by
        unfold shiftUp
        rw [List.range_succ, List.foldl_append]
        rfl
      have hunread : ¬ (0 ≤ (n : ℤ) + VGA_WIDTH ∧ (n : ℤ) + VGA_WIDTH < n) := by omega
      rw [hstep, ih, List.range_succ, List.reverse_append]
      unfold store
      congr 1
      funext i
      dsimp only
      rw [Function.update_apply, if_neg hunread]
      by_cases hi : i = n
      · rw [if_pos hi, if_pos (by omega), hi]
      · have hiff : 0 ≤ i ∧ i < (n + 1 : ℕ) ↔ 0 ≤ i ∧ i < n := by omega
        rw [if_neg hi, if_congr hiff rfl rfl]

/-! ### The attribute -/

@[simp] theorem textAttribute_store (i : ℤ) (cell : UInt16) :
    (v.store i cell).textAttribute = v.textAttribute := rfl

@[simp] theorem textAttribute_updateCursor (pos : Int16) :
    (v.updateCursor pos).textAttribute = v.textAttribute := rfl

@[simp] theorem textAttribute_blanks (lo n : ℕ) :
    (v.blanks lo n).textAttribute = v.textAttribute := by rw [blanks_eq]

@[simp] theorem textAttribute_shiftUp (n : ℕ) :
    (v.shiftUp n).textAttribute = v.textAttribute := by rw [shiftUp_eq]

@[simp] theorem textAttribute_clearScreen : v.clearScreen.textAttribute = v.textAttribute := by
  simp [clearScreen]

@[simp] theorem textAttribute_finish : v.finish.textAttribute = v.textAttribute := by
  unfold finish scrollScreen
  split_ifs <;> simp

@[simp] theorem textAttribute_printChar (c : UInt8) :
    (v.printChar c).textAttribute = v.textAttribute := by
  unfold printChar
  split_ifs <;> simp

end Vga

end NosmeriOs.Console
