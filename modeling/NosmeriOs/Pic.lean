import NosmeriOs.InterruptStubs
import NosmeriOs.Keyboard
import NosmeriOs.Pic8259
import NosmeriOs.PortIo

/-! # Hardware interrupts (`drivers/pic.cpp`, `keyboard.cpp`, `timer.cpp`)

The timer is on line 0 of the interrupt controller, the keyboard controller on line 1.  Requests
come at any time, also between two port accesses of `pic_remap` or of a handler.

* `picRemap`, `picSendEoi`, `timerHandler`, `keyboardHandler`: the code, as programs over ports.
* `Board`: the interrupt controller and the keyboard controller, which takes the next scancode
  when the last one has been read, and raises line 1 for each.
* `Machine`: the board, the interrupt flag and what is left of the program that goes to its ports.
  The other code of the kernel does not; it changes the flag and reads the keyboard ring. -/

namespace NosmeriOs.Pic

open PortIo Pic8259
open Input (Keyboard Reader Returned)
open Interrupts (Stubs IdtEntry initIdt)

/-! ### The code -/

def PIC1_COMMAND : UInt16 := 0x20
def PIC1_DATA : UInt16 := 0x21
def PIC2_COMMAND : UInt16 := 0xA0
def PIC2_DATA : UInt16 := 0xA1
def PIC_EOI : UInt8 := 0x20

def ioWait : Prog Unit := outb 0x80 0

def picRemap : Prog Unit := do
  outb PIC1_COMMAND 0x11
  ioWait
  outb PIC2_COMMAND 0x11
  ioWait
  outb PIC1_DATA 0x20
  ioWait
  outb PIC2_DATA 0x28
  ioWait
  outb PIC1_DATA 0x04
  ioWait
  outb PIC2_DATA 0x02
  ioWait
  outb PIC1_DATA 0x01
  ioWait
  outb PIC2_DATA 0x01
  ioWait
  outb PIC1_DATA 0b11111100
  outb PIC2_DATA 0b11111111

def picSendEoi (irq : UInt8) : Prog Unit := do
  if irq ≥ 8 then outb PIC2_COMMAND PIC_EOI
  outb PIC1_COMMAND PIC_EOI

/-- The static variables of the two drivers. -/
structure Vars where
  keyboard : Keyboard
  timerTicks : UInt32

/-- `timer_handler`, but for `task_timer_tick` before the end of the interrupt and `schedule` after
it, which go to no port. -/
def timerHandler (v : Vars) : Prog Vars := do
  let v := { v with timerTicks := v.timerTicks + 1 }
  picSendEoi 0
  return v

def keyboardHandler (v : Vars) : Prog Vars := do
  let scancode ← inb 0x60
  let v := { v with keyboard := Input.handleKeyboardInput v.keyboard scancode }
  picSendEoi 1
  return v

/-! ### The board -/

/-- The keyboard controller: its output buffer, and what port 0x60 gives when that is empty. -/
structure Controller where
  output : Option UInt8
  last : UInt8

/-- As history, the board has the scancodes that the controller has taken from the keyboard, those
that have been read, and the number of ticks that the interrupt controller has latched. -/
structure Board where
  pic : Pair
  controller : Controller
  received : List UInt8
  taken : List UInt8
  latched : ℕ

namespace Board

def requests (b : Board) (n : ℕ) : Bool := b.pic.master.requests n

def regs (b : Board) : Registers := b.pic.master.regs

/-- What the devices do. -/
inductive Signal where
  | raise (line : ℕ)
  | scancode (c : UInt8)

def signal (b : Board) : Signal → Board
  | .raise line =>
      -- line 1 belongs to the keyboard controller, line 2 to the slave
      if line = 1 ∨ line = 2 ∨ 16 ≤ line then b
      else
        { b with
          pic := b.pic.raise line
          latched := if line = 0 ∧ b.requests 0 = false then b.latched + 1 else b.latched }
  | .scancode c =>
      if b.controller.output = none then
        { b with
          pic := b.pic.raise 1
          controller := { b.controller with output := some c }
          received := b.received ++ [c] }
      else b

/-- Port 0x60 is read. -/
def readOutput (b : Board) : UInt8 × Board :=
  let c := b.controller.output.getD b.controller.last
  (c, { b with
    controller := ⟨none, c⟩
    taken := b.taken ++ b.controller.output.toList })

def write (port : UInt16) (val : UInt8) (p : Pair) : Pair :=
  if port = PIC1_COMMAND then { p with master := p.master.command val }
  else if port = PIC1_DATA then { p with master := p.master.data val }
  else if port = PIC2_COMMAND then p.setSlave (p.slave.command val)
  else if port = PIC2_DATA then p.setSlave (p.slave.data val)
  else p

end Board

instance : Device Board where
  inb port b :=
    if port = 0x60 then b.readOutput
    else if port = PIC1_DATA then (b.regs.mask, b)
    else if port = PIC2_DATA then (b.pic.slave.regs.mask, b)
    else (0xFF, b)
  outb port val b := { b with pic := Board.write port val b.pic }
  inw _ b := (0xFFFF, b)
  outw _ _ b := b

/-! ### Runs -/

/-- `job` is what is left of `pic_remap` or of a handler. -/
structure Machine where
  board : Board
  iflag : Bool
  job : Option (Prog Vars)
  vars : Vars
  reader : Reader
  returned : List Returned
  delivered : List UInt8

inductive Event where
  | signal (σ : Board.Signal)
  /-- The next access of the program to a port. -/
  | access
  /-- The processor looks for an interrupt. -/
  | accept
  /-- `sti`, `cli`, `iret` or a switch of tasks. -/
  | setFlag (f : Bool)
  | call (count : UInt32)
  | read

/-- The handler behind a gate of `init_idt`. -/
def handler (vector : UInt8) (v : Vars) : Option (Prog Vars) :=
  if vector = 32 then some (timerHandler v)
  else if vector = 33 then some (keyboardHandler v)
  else none

namespace Machine

/-- One access; a program that has ended leaves its variables. -/
def access (s : Machine) (p : Prog Vars) : Machine :=
  match PortIo.step (p, s.board) with
  | (.ret v, b) =>
      { s with
        board := b
        job := none
        vars := v }
  | (p, b) =>
      { s with
        board := b
        job := some p }

def accept (s : Machine) : Machine :=
  match s.board.pic.acknowledge with
  | none => s
  | some (vector, pic) =>
      { s with
        board := { s.board with pic := pic }
        iflag := false
        job := handler vector s.vars
        delivered := s.delivered ++ [vector] }

def next (s : Machine) : Event → Machine
  | .signal σ => { s with board := s.board.signal σ }
  | .access =>
      match s.job with
      | some p => s.access p
      | none => s
  | .accept => if s.iflag ∧ s.job.isNone then s.accept else s
  | .setFlag f => if s.job.isNone then { s with iflag := f } else s
  | .call count =>
      match s.job, s.reader with
      | none, .idle => { s with reader := .loop ⟨count, 0, []⟩ }
      | _, _ => s
  | .read =>
      if s.job.isNone then
        let r := s.reader.step s.vars.keyboard
        { s with
          vars := { s.vars with keyboard := r.1 }
          reader := r.2.1
          returned := s.returned ++ r.2.2.toList }
      else s

def run (s : Machine) (events : List Event) : Machine := events.foldl next s

end Machine

/-- Before `pic_remap`. -/
def start (pic : Pair) (controller : Controller) : Machine where
  board := ⟨pic, controller, [], [], 0⟩
  iflag := false
  job := some (picRemap >>= fun _ => .ret ⟨Input.boot.keyboard, 0⟩)
  vars := ⟨Input.boot.keyboard, 0⟩
  reader := .idle
  returned := []
  delivered := []

end NosmeriOs.Pic
