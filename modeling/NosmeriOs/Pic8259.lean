import Mathlib.Logic.Function.Basic
import Mathlib.Data.Nat.Notation
import Mathlib.Tactic.SplitIfs

/-! # The 8259A interrupt controller

A chip has eight edge-triggered inputs, of which the one with the lowest number comes first
(fully nested, without rotation).  Two chips are cascaded: the second one is on input 2 of the
first.  What is read from the command port is left out.

* `Registers`: what the processor sets, by commands, data and acknowledgements.
* `Chip`: a chip with the requests that its inputs have latched.
* `Pair`: the two chips; `Pair.acknowledge` gives the vector of the interrupt that is next. -/

namespace Pic8259

/-! ### One chip -/

/-- What the next byte on the data port is: the mask, or a word of the initialization. -/
inductive Stage where
  | ready
  | icw2
  | icw3
  | icw4
deriving DecidableEq

structure Registers where
  inService : ℕ → Bool
  mask : UInt8
  base : UInt8
  /-- The inputs of the first chip that have a chip behind them. -/
  cascaded : UInt8
  single : Bool
  needsIcw4 : Bool
  autoEoi : Bool
  stage : Stage

namespace Registers

def masked (r : Registers) (n : ℕ) : Bool := r.mask.toNat.testBit n

/-- An interrupt of this priority or a higher one has not ended. -/
def blocked (r : Registers) (n : ℕ) : Bool := (List.range (n + 1)).any r.inService

def vector (r : Registers) (n : ℕ) : UInt8 := r.base ||| UInt8.ofNat n

def begin (r : Registers) (n : ℕ) : Registers :=
  if r.autoEoi then r else { r with inService := Function.update r.inService n true }

def finish (r : Registers) (n : ℕ) : Registers :=
  { r with inService := Function.update r.inService n false }

/-- The end of the interrupt that comes first among those in service. -/
def eoi (r : Registers) : Registers :=
  match (List.range 8).find? r.inService with
  | some n => r.finish n
  | none => r

/-- ICW1 -/
def icw1 (r : Registers) (val : UInt8) : Registers :=
  { r with
    mask := 0
    single := val &&& 0x02 ≠ 0
    needsIcw4 := val &&& 0x01 ≠ 0
    autoEoi := r.autoEoi ∧ val &&& 0x01 ≠ 0
    stage := .icw2 }

/-- A byte on the command port. -/
def command (r : Registers) (val : UInt8) : Registers :=
  if val &&& 0x10 ≠ 0 then r.icw1 val
  else if val &&& 0x08 ≠ 0 ∨ val &&& 0x20 = 0 then r
  else if val &&& 0x40 = 0 then r.eoi
  else r.finish (val &&& 0x07).toNat

def afterIcw3 (r : Registers) : Stage := if r.needsIcw4 then .icw4 else .ready

/-- A byte on the data port. -/
def data (r : Registers) (val : UInt8) : Registers :=
  match r.stage with
  | .ready => { r with mask := val }
  | .icw2 =>
      { r with
        base := val &&& 0xF8
        stage := if r.single then r.afterIcw3 else .icw3 }
  | .icw3 =>
      { r with
        cascaded := val
        stage := r.afterIcw3 }
  | .icw4 =>
      { r with
        autoEoi := val &&& 0x02 ≠ 0
        stage := .ready }

/-- The only interrupt in service ends. -/
theorem eoi_begin {r : Registers} {n : ℕ} (hn : n < 8) (hauto : r.autoEoi = false)
    (h : ∀ m, r.inService m = false) : (r.begin n).eoi = r := by
  have hb : r.begin n = { r with inService := Function.update r.inService n true } := by
    unfold Registers.begin
    rw [hauto]
    exact if_neg Bool.false_ne_true
  have hfind : (List.range 8).find? (Function.update r.inService n true) = some n := by
    rw [List.find?_range_eq_some]
    refine ⟨Function.update_self n true r.inService, List.mem_range.2 hn, fun m hm => ?_⟩
    rw [Function.update_of_ne (Nat.ne_of_lt hm), h m]
    rfl
  rw [hb, Registers.eoi]
  simp only [hfind, Registers.finish, Function.update_idem]
  rw [← h n, Function.update_eq_self]

end Registers

structure Chip where
  /-- The inputs with an edge that has not been acknowledged. -/
  requests : ℕ → Bool
  regs : Registers

namespace Chip

/-- The request that the chip passes on. -/
def request (c : Chip) : Option ℕ :=
  (List.range 8).find? fun n => c.requests n && !c.regs.masked n && !c.regs.blocked n

/-- An edge on an input. -/
def raise (c : Chip) (n : ℕ) : Chip :=
  { c with requests := Function.update c.requests n true }

def acknowledge (c : Chip) (n : ℕ) : Chip where
  requests := Function.update c.requests n false
  regs := c.regs.begin n

/-- ICW1 forgets the edges that have come. -/
def command (c : Chip) (val : UInt8) : Chip where
  requests := if val &&& 0x10 ≠ 0 then fun _ => false else c.requests
  regs := c.regs.command val

def data (c : Chip) (val : UInt8) : Chip := { c with regs := c.regs.data val }

theorem requests_acknowledge (c : Chip) (n : ℕ) : (c.acknowledge n).requests n = false := by
  simp [acknowledge]

theorem requests_acknowledge_of_ne (c : Chip) {m n : ℕ} (h : m ≠ n) :
    (c.acknowledge n).requests m = c.requests m := by
  simp [acknowledge, h]

end Chip

/-! ### Two chips -/

structure Pair where
  master : Chip
  slave : Chip

namespace Pair

/-- The slave has changed; when it begins to have a request, that is an edge on input 2. -/
def setSlave (p : Pair) (slave : Chip) : Pair where
  master :=
    if p.slave.request = none ∧ slave.request ≠ none then p.master.raise 2 else p.master
  slave := slave

/-- An edge on one of the sixteen lines. -/
def raise (p : Pair) (line : ℕ) : Pair :=
  if line < 8 then { p with master := p.master.raise line }
  else p.setSlave (p.slave.raise (line - 8))

/-- The vector that the processor is given. -/
def acknowledge (p : Pair) : Option (UInt8 × Pair) :=
  p.master.request.map fun n =>
    let master := p.master.acknowledge n
    if p.master.regs.single = false ∧ p.master.regs.cascaded.toNat.testBit n then
      match p.slave.request with
      | some m =>
          (p.slave.regs.vector m, { p with master := master }.setSlave (p.slave.acknowledge m))
      | none => (p.slave.regs.vector 7, { p with master := master })
    else (p.master.regs.vector n, { p with master := master })

/-- An input of the master other than the one of the slave. -/
theorem requests_setSlave (p : Pair) (slave : Chip) {n : ℕ} (hn : n ≠ 2) :
    (p.setSlave slave).master.requests n = p.master.requests n := by
  unfold setSlave
  split_ifs
  · exact Function.update_of_ne hn _ _
  · rfl

theorem regs_setSlave (p : Pair) (slave : Chip) :
    (p.setSlave slave).master.regs = p.master.regs := by
  unfold setSlave
  split_ifs
  · rfl
  · rfl

theorem regs_raise (p : Pair) (line : ℕ) : (p.raise line).master.regs = p.master.regs := by
  unfold raise
  split_ifs
  · rfl
  · exact p.regs_setSlave _

theorem requests_raise (p : Pair) (line : ℕ) {n : ℕ} (hn : n ≠ 2) (h8 : n < 8) :
    (p.raise line).master.requests n = (p.master.requests n || decide (n = line)) := by
  unfold raise
  split_ifs with hline
  · change Function.update p.master.requests line true n = _
    rw [Function.update_apply]
    split_ifs with h
    · simp [h]
    · simp [h]
  · rw [requests_setSlave p _ hn]
    have h : n ≠ line := by omega
    simp [h]

end Pair

end Pic8259
