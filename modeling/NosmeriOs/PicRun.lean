import NosmeriOs.Pic

/-! # Interrupts from the controllers to their handlers

* `remapped`: what `pic_remap` leaves in the interrupt controller.
* `Board.At`: the board as it may be found at one place of a program.  Signals of the devices do not
  change it (`Board.At.later`), an access changes it in one way.
* `Machine.Ok`, the invariant of `Machine.run`.
* `run_interrupts`: every interrupt that comes has a handler, and none is held back.
* `run_keyboard`: the scancodes get to the keyboard ring, in order and each of them once.  There is
  one exception: when a scancode waits in the keyboard controller as `pic_remap` begins, the
  keyboard is dead from then on. -/

namespace NosmeriOs.Pic

open PortIo Pic8259
open Input (Keyboard Reader Returned)
open Interrupts (Stubs IdtEntry initIdt)

/-! ### The registers -/

def remapped : Registers where
  inService _ := false
  mask := 0xFC
  base := 0x20
  cascaded := 0x04
  single := false
  needsIcw4 := true
  autoEoi := false
  stage := .ready

/-- A write to a port, in the registers of the master. -/
def written (r : Registers) (w : UInt16 × UInt8) : Registers :=
  if w.1 = PIC1_COMMAND then r.command w.2
  else if w.1 = PIC1_DATA then r.data w.2
  else r

def remapWrites : List (UInt16 × UInt8) :=
  [(0x80, 0), (0xA0, 0x11), (0x80, 0), (0x21, 0x20), (0x80, 0), (0xA1, 0x28), (0x80, 0),
    (0x21, 0x04), (0x80, 0), (0xA1, 0x02), (0x80, 0), (0x21, 0x01), (0x80, 0), (0xA1, 0x01),
    (0x80, 0), (0x21, 0xFC), (0xA1, 0xFF)]

theorem registers_remap {r : Registers} (h : ∀ n, r.inService n = false) :
    remapWrites.foldl written (r.command 0x11) = remapped := by
  have hs : r.inService = fun _ => false := funext h
  cases r with
  | mk s m b c si n a st =>
  change s = _ at hs
  subst hs
  rfl

theorem request_remapped (q : ℕ → Bool) : Chip.request ⟨q, remapped⟩ =
    if q 0 then some 0 else if q 1 then some 1 else none := by
  have hopen : ∀ n < 8, (!remapped.masked n && !remapped.blocked n) = decide (n = 0 ∨ n = 1) := by
    decide
  have hp : ∀ n < 8, (q n && !remapped.masked n && !remapped.blocked n) =
      (q n && decide (n = 0 ∨ n = 1)) := fun n hn => by rw [Bool.and_assoc, hopen n hn]
  unfold Chip.request
  split_ifs with h0 h1
  · rw [List.find?_range_eq_some, hp 0 (by decide)]
    exact ⟨by simp [h0], by decide, fun m hm => absurd hm m.not_lt_zero⟩
  · rw [List.find?_range_eq_some, hp 1 (by decide)]
    refine ⟨by simp [h1], by decide, fun m hm => ?_⟩
    obtain rfl : m = 0 := Nat.lt_one_iff.1 hm
    simp [h0]
  · rw [List.find?_range_eq_none]
    intro n hn
    simp only
    rw [hp n hn]
    by_cases h : n = 0 ∨ n = 1
    · rcases h with rfl | rfl
      · simp [h0]
      · simp [h1]
    · simp [h]

/-! ### The board -/

/-- How a scancode in the output buffer gets to the handler. -/
inductive Line where
  /-- Line 1 is requested as long as there is one. -/
  | asks
  /-- The handler has been called for it. -/
  | reading
  /-- Not at all: it was there before the edges were forgotten. -/
  | stuck (c : UInt8)

def Line.On (l : Line) (requested : Bool) (output : Option UInt8) (taken received : List UInt8) :
    Prop :=
  match l with
  | .asks => requested = output.isSome ∧ taken ++ output.toList = received
  | .reading => requested = false ∧ output.isSome ∧ taken ++ output.toList = received
  | .stuck c => requested = false ∧ output = some c ∧ taken = [] ∧ received = []

namespace Board

/-- `ticks` is the number of ticks that have been handled. -/
structure At (b : Board) (r : Registers) (l : Line) (ticks : UInt32) (taken : List UInt8) :
    Prop where
  regs : b.regs = r
  line : l.On (b.requests 1) b.controller.output b.taken b.received
  ticks : ticks + UInt32.ofNat (b.requests 0).toNat = UInt32.ofNat b.latched
  taken : b.taken = taken

/-- Some signals later. -/
def Later : Board → Board → Prop := Relation.ReflTransGen fun b b' => ∃ σ, b' = b.signal σ

theorem Later.refl (b : Board) : Later b b := Relation.ReflTransGen.refl

theorem Later.trans {b b' b'' : Board} (h : Later b b') (h' : Later b' b'') : Later b b'' :=
  Relation.ReflTransGen.trans h h'

namespace At

variable {b b' : Board} {r r' : Registers} {l : Line} {ticks : UInt32} {taken : List UInt8}

theorem raise (h : b.At r l ticks taken) {line : ℕ} (h1 : line ≠ 1) :
    Board.At { b with
      pic := b.pic.raise line
      latched := if line = 0 ∧ b.requests 0 = false then b.latched + 1 else b.latched }
      r l ticks taken := by
  have hreq1 : (b.pic.raise line).master.requests 1 = b.requests 1 := by
    rw [Pair.requests_raise _ _ (by decide) (by decide), decide_eq_false h1.symm, Bool.or_false,
      Board.requests]
  have hreq0 : (b.pic.raise line).master.requests 0 = (b.requests 0 || decide (0 = line)) :=
    Pair.requests_raise _ _ (by decide) (by decide)
  refine ⟨(Pair.regs_raise _ _).trans h.regs, ?_, ?_, h.taken⟩
  · change l.On ((b.pic.raise line).master.requests 1) _ _ _
    rw [hreq1]
    exact h.line
  · change ticks + UInt32.ofNat ((b.pic.raise line).master.requests 0).toNat = _
    have hticks := h.ticks
    rw [hreq0]
    by_cases hz : line = 0
    · cases hq : b.requests 0 with
      | true =>
          rw [hq] at hticks
          simpa [hz] using hticks
      | false =>
          rw [hq] at hticks
          have hlatched : ticks = UInt32.ofNat b.latched := by simpa using hticks
          simp [hz, hlatched, UInt32.ofNat_add]
    · simpa [hz, Ne.symm hz] using hticks

theorem scancode (h : b.At r l ticks taken) (c : UInt8) :
    (b.signal (.scancode c)).At r l ticks taken := by
  rw [signal]
  split_ifs with hout
  · have hline := h.line
    have hreq1 : (b.pic.raise 1).master.requests 1 = true := by
      rw [Pair.requests_raise _ _ (by decide) (by decide)]
      exact Bool.or_true _
    have hreq0 : (b.pic.raise 1).master.requests 0 = b.requests 0 := by
      rw [Pair.requests_raise _ _ (by decide) (by decide)]
      exact Bool.or_false _
    refine ⟨(Pair.regs_raise _ _).trans h.regs, ?_, ?_, h.taken⟩
    · change l.On ((b.pic.raise 1).master.requests 1) (some c) b.taken (b.received ++ [c])
      rw [hreq1]
      rw [hout] at hline
      cases l with
      | asks =>
          obtain ⟨-, hbytes⟩ := hline
          rw [Option.toList_none, List.append_nil] at hbytes
          exact ⟨rfl, by rw [Option.toList_some, hbytes]⟩
      | reading => simp [Line.On] at hline
      | stuck c => simp [Line.On] at hline
    · change ticks + UInt32.ofNat ((b.pic.raise 1).master.requests 0).toNat = _
      rw [hreq0]
      exact h.ticks
  · exact h

theorem signal (h : b.At r l ticks taken) (σ : Signal) : (b.signal σ).At r l ticks taken := by
  cases σ with
  | raise line =>
      by_cases hno : line = 1 ∨ line = 2 ∨ 16 ≤ line
      · rw [Board.signal, if_pos hno]
        exact h
      · rw [Board.signal, if_neg hno]
        exact h.raise (not_or.1 hno).1
  | scancode c => exact h.scancode c

theorem later (he : Later b b') (h : b.At r l ticks taken) : b'.At r l ticks taken := by
  induction he with
  | refl => exact h
  | tail _ hs ih =>
      obtain ⟨σ, rfl⟩ := hs
      exact ih.signal σ

/-- A write that does not begin the initialization. -/
theorem outb (h : b.At r l ticks taken) {port : UInt16} {val : UInt8}
    (hw : port = PIC1_COMMAND → val &&& 0x10 = 0) :
    (Device.outb port val b).At (written r (port, val)) l ticks taken := by
  have hreq : ∀ n, n ≠ 2 → (Device.outb port val b).requests n = b.requests n := by
    intro n hn
    change (write port val b.pic).master.requests n = b.pic.master.requests n
    unfold write
    split_ifs with hc
    · change (if val &&& 0x10 ≠ 0 then fun _ => false else b.pic.master.requests) n = _
      rw [if_neg fun h => h (hw hc)]
    · rfl
    · exact Pair.requests_setSlave _ _ hn
    · exact Pair.requests_setSlave _ _ hn
    · rfl
  refine ⟨?_, ?_, ?_, h.taken⟩
  · rw [← h.regs]
    change (write port val b.pic).master.regs = written b.pic.master.regs (port, val)
    unfold write written
    split_ifs
    · rfl
    · rfl
    · exact Pair.regs_setSlave _ _
    · exact Pair.regs_setSlave _ _
    · rfl
  · rw [hreq 1 (by decide)]
    exact h.line
  · rw [hreq 0 (by decide)]
    exact h.ticks

/-- The scancode is read. -/
theorem readOutput (h : b.At r .reading ticks taken) :
    ∃ c, b.controller.output = some c ∧ b.readOutput.1 = c ∧
      b.readOutput.2.At r .asks ticks (taken ++ [c]) := by
  obtain ⟨hreq, hsome, hbytes⟩ := h.line
  obtain ⟨c, hc⟩ := Option.isSome_iff_exists.1 hsome
  refine ⟨c, hc, by rw [Board.readOutput, hc, Option.getD_some], h.regs, ⟨hreq, ?_⟩, h.ticks, ?_⟩
  · change b.taken ++ b.controller.output.toList ++ [] = b.received
    rw [List.append_nil, hbytes]
  · change b.taken ++ b.controller.output.toList = taken ++ [c]
    rw [hc, h.taken, Option.toList_some]

end At

end Board

/-! ### The programs -/

def scancodeOf : Input.Event → Option UInt8
  | .interrupt c => some c
  | _ => none

/-- A history of the keyboard ring: the events, and what they have come to. -/
structure Heard (es : List Input.Event) (k : Keyboard) (reader : Reader) (returned : List Returned)
    (taken : List UInt8) : Prop where
  keyboard : (Input.run es).keyboard = k
  reader : (Input.run es).reader = reader
  returned : (Input.run es).returned = returned
  scancodes : es.filterMap scancodeOf = taken

/-- How many interrupts there were of each kind. -/
def Counts (delivered : List UInt8) (ticks : UInt32) (keys : ℕ) : Prop :=
  UInt32.ofNat (delivered.count 32) = ticks ∧ delivered.count 33 = keys

theorem Counts.tick {delivered : List UInt8} {ticks : UInt32} {keys : ℕ}
    (h : Counts delivered ticks keys) : Counts (delivered ++ [32]) (ticks + 1) keys := by
  obtain ⟨rfl, rfl⟩ := h
  refine ⟨?_, ?_⟩
  · rw [List.count_append]
    exact UInt32.ofNat_add _ 1
  · rw [List.count_append]
    rfl

theorem Counts.key {delivered : List UInt8} {ticks : UInt32} {keys : ℕ}
    (h : Counts delivered ticks keys) : Counts (delivered ++ [33]) ticks (keys + 1) := by
  obtain ⟨rfl, rfl⟩ := h
  refine ⟨?_, ?_⟩
  · rw [List.count_append]
    rfl
  · rw [List.count_append]
    rfl

/-- No program goes to the ports. -/
structure Idle (l : Line) (reader : Reader) (returned : List Returned) (delivered : List UInt8)
    (v : Vars) (b : Board) : Prop where
  board : b.At remapped l v.timerTicks b.taken
  heard : ∃ es, Heard es v.keyboard reader returned b.taken
  counts : Counts delivered v.timerTicks b.taken.length

section programs
variable {es : List Input.Event} {k : Keyboard} {reader : Reader} {returned : List Returned}
  {taken delivered : List UInt8} {b : Board} {l : Line} {v : Vars}

theorem run_snoc (es : List Input.Event) (e : Input.Event) :
    Input.run (es ++ [e]) = (Input.run es).next e := by
  rw [Input.run, List.foldl_append]
  rfl

theorem filterMap_snoc (es : List Input.Event) (e : Input.Event) :
    (es ++ [e]).filterMap scancodeOf = es.filterMap scancodeOf ++ (scancodeOf e).toList := by
  rw [List.filterMap_append]
  cases e <;> rfl

theorem Heard.interrupt (h : Heard es k reader returned taken) (c : UInt8) :
    Heard (es ++ [.interrupt c]) (Input.handleKeyboardInput k c) reader returned
      (taken ++ [c]) := by
  rw [← h.keyboard, ← h.scancodes]
  refine ⟨?_, ?_, ?_, filterMap_snoc es _⟩
  · rw [run_snoc]
    rfl
  · rw [run_snoc]
    exact h.reader
  · rw [run_snoc]
    exact h.returned

theorem Heard.call (h : Heard es k .idle returned taken) (count : UInt32) :
    Heard (es ++ [.call count]) k (.loop ⟨count, 0, []⟩) returned taken := by
  have hnext : (Input.run es).next (.call count) =
      { Input.run es with reader := .loop ⟨count, 0, []⟩ } := by
    unfold Input.System.next
    simp only [h.reader]
  refine ⟨?_, ?_, ?_, ?_⟩
  · rw [run_snoc, hnext]
    exact h.keyboard
  · rw [run_snoc, hnext]
  · rw [run_snoc, hnext]
    exact h.returned
  · rw [filterMap_snoc, h.scancodes]
    exact List.append_nil _

theorem Heard.step (h : Heard es k reader returned taken) :
    Heard (es ++ [.step]) (reader.step k).1 (reader.step k).2.1
      (returned ++ (reader.step k).2.2.toList) taken := by
  rw [← h.keyboard, ← h.reader, ← h.returned]
  refine ⟨?_, ?_, ?_, ?_⟩
  · rw [run_snoc]
    rfl
  · rw [run_snoc]
    rfl
  · rw [run_snoc]
    rfl
  · rw [filterMap_snoc, h.scancodes]
    exact List.append_nil _

theorem under_remap {r : Registers} (hr : ∀ n, r.inService n = false)
    (hb : b.At (r.command 0x11) l v.timerTicks taken)
    (hh : Heard es v.keyboard reader returned taken)
    (hcount : Counts delivered v.timerTicks taken.length) :
    Under Board.Later (Idle l reader returned delivered) (outbs remapWrites (.ret v)) b := by
  have hw : ∀ w ∈ remapWrites, w.1 = PIC1_COMMAND → w.2 &&& 0x10 = 0 := by
    simp [remapWrites, PIC1_COMMAND]
  refine Under.outbs (P := fun r d => d.At r l v.timerTicks taken) (f := written)
    (fun he h => h.later he) (fun w hmem _ _ h => h.outb (hw w hmem)) (fun h => ?_) hb
  rw [registers_remap hr] at h
  refine .ret fun d he => ?_
  have h' := h.later he
  rw [← h'.taken] at hh hcount
  exact ⟨{ h' with taken := rfl }, ⟨es, hh⟩, hcount⟩

/-- The end of the interrupt that has been begun, and with it of its handler. -/
theorem under_eoi {n : ℕ} (hn : n < 8)
    (hb : b.At (remapped.begin n) l v.timerTicks taken)
    (hh : Heard es v.keyboard reader returned taken)
    (hcount : Counts delivered v.timerTicks taken.length) :
    Under Board.Later (Idle l reader returned delivered) (.outb PIC1_COMMAND PIC_EOI (.ret v)) b := by
  refine .outb fun d he => .ret fun d' he' => ?_
  have hw : (Device.outb PIC1_COMMAND PIC_EOI d).At
      (written (remapped.begin n) (PIC1_COMMAND, PIC_EOI)) l v.timerTicks taken :=
    (hb.later he).outb fun _ => by decide
  have h := hw.later he'
  have hregs : written (remapped.begin n) (PIC1_COMMAND, PIC_EOI) = remapped := by
    change (remapped.begin n).eoi = remapped
    exact Registers.eoi_begin hn rfl fun _ => rfl
  rw [hregs] at h
  rw [← h.taken] at hh hcount
  exact ⟨{ h with taken := rfl }, ⟨es, hh⟩, hcount⟩

theorem under_timer (hb : b.At (remapped.begin 0) l (v.timerTicks + 1) taken)
    (hh : Heard es v.keyboard reader returned taken)
    (hcount : Counts delivered (v.timerTicks + 1) taken.length) :
    Under Board.Later (Idle l reader returned delivered) (timerHandler v) b :=
  under_eoi (by decide) hb hh hcount

theorem under_keyboard (hb : b.At (remapped.begin 1) .reading v.timerTicks taken)
    (hh : Heard es v.keyboard reader returned taken)
    (hcount : Counts delivered v.timerTicks (taken.length + 1)) :
    Under Board.Later (Idle .asks reader returned delivered) (keyboardHandler v) b := by
  refine .inb fun d he => ?_
  obtain ⟨c, -, hc, h⟩ := (hb.later he).readOutput
  change Under _ _ (.outb PIC1_COMMAND PIC_EOI (.ret
    { v with keyboard := Input.handleKeyboardInput v.keyboard d.readOutput.1 })) d.readOutput.2
  rw [hc]
  refine under_eoi (by decide) h (hh.interrupt c) ?_
  rw [List.length_append]
  exact hcount

end programs

/-! ### The machine -/

section accept
variable {b : Board} {l : Line} {ticks : UInt32} {taken : List UInt8}

theorem Board.At.request (h : b.At remapped l ticks taken) : b.pic.master.request =
    if b.requests 0 then some 0 else if b.requests 1 then some 1 else none := by
  have hchip : b.pic.master = ⟨b.requests, remapped⟩ := by
    rw [← h.regs]
    rfl
  rw [hchip, request_remapped]

/-- The processor is given a vector of the master. -/
def Board.acknowledged (b : Board) (n : ℕ) : Board :=
  { b with pic := { b.pic with master := b.pic.master.acknowledge n } }

theorem Board.At.acknowledge (h : b.At remapped l ticks taken) {n : ℕ}
    (hn : b.pic.master.request = some n) (h01 : n = 0 ∨ n = 1) :
    b.pic.acknowledge = some (32 + UInt8.ofNat n, (b.acknowledged n).pic) := by
  have hregs : b.pic.master.regs = remapped := h.regs
  have hslave : ¬ (remapped.single = false ∧ remapped.cascaded.toNat.testBit n) := by
    rcases h01 with rfl | rfl
    · decide
    · decide
  have hvector : remapped.vector n = 32 + UInt8.ofNat n := by
    rcases h01 with rfl | rfl
    · rfl
    · rfl
  rw [Pair.acknowledge, hn, Option.map_some]
  simp only [hregs, if_neg hslave, hvector]
  rfl

theorem Board.At.tick (h : b.At remapped l ticks taken) (hq : b.requests 0 = true) :
    (b.acknowledged 0).At (remapped.begin 0) l (ticks + 1) taken := by
  have hticks := h.ticks
  rw [hq] at hticks
  refine ⟨?_, ?_, ?_, h.taken⟩
  · change b.regs.begin 0 = _
    rw [h.regs]
  · have hreq : (b.acknowledged 0).requests 1 = b.requests 1 :=
      Chip.requests_acknowledge_of_ne _ (by decide)
    rw [hreq]
    exact h.line
  · have hreq : (b.acknowledged 0).requests 0 = false := Chip.requests_acknowledge _ 0
    rw [hreq]
    exact (UInt32.add_zero _).trans hticks

theorem Board.At.key (h : b.At remapped .asks ticks taken) (hq : b.requests 1 = true) :
    (b.acknowledged 1).At (remapped.begin 1) .reading ticks taken := by
  obtain ⟨hout, hbytes⟩ := h.line
  rw [hq] at hout
  refine ⟨?_, ⟨Chip.requests_acknowledge _ 1, hout.symm, hbytes⟩, ?_, h.taken⟩
  · change b.regs.begin 1 = _
    rw [h.regs]
  · have hreq : (b.acknowledged 1).requests 0 = b.requests 0 :=
      Chip.requests_acknowledge_of_ne _ (by decide)
    rw [hreq]
    exact h.ticks

end accept

namespace Machine

/-- The invariant.  A program that goes to the ports leaves an idle machine behind it, whatever the
devices do in between. -/
structure Ok (l : Line) (s : Machine) : Prop where
  vectors : ∀ v ∈ s.delivered, v = 32 ∨ v = 33 ∧ l = .asks
  job : match s.job with
    | none => Idle l s.reader s.returned s.delivered s.vars s.board
    | some p => Under Board.Later (Idle l s.reader s.returned s.delivered) p s.board

theorem Ok.idle {l : Line} {s : Machine} (h : s.Ok l) (hj : s.job = none) :
    Idle l s.reader s.returned s.delivered s.vars s.board := by
  have hjob := h.job
  rw [hj] at hjob
  exact hjob

theorem Ok.signal {l : Line} {s : Machine} (h : s.Ok l) (σ : Board.Signal) :
    (s.next (.signal σ)).Ok l := by
  refine ⟨h.vectors, ?_⟩
  have hlater : Board.Later s.board (s.board.signal σ) := Relation.ReflTransGen.single ⟨σ, rfl⟩
  cases hj : s.job with
  | none =>
      have hidle := h.idle hj
      simp only [next, hj]
      have hb := hidle.board.signal σ
      obtain ⟨es, hh⟩ := hidle.heard
      have hcount := hidle.counts
      rw [← hb.taken] at hh hcount
      exact ⟨{ hb with taken := rfl }, ⟨es, hh⟩, hcount⟩
  | some p =>
      have hjob := h.job
      rw [hj] at hjob
      simp only [next, hj]
      exact hjob.env Board.Later.trans hlater

theorem Ok.access {l : Line} {s : Machine} {p : Prog Vars} (h : s.Ok l) (hj : s.job = some p) :
    (s.next .access).Ok l := by
  have hjob := h.job
  rw [hj] at hjob
  have hunder := hjob.step Board.Later.refl
  simp only [next, hj, Machine.access]
  obtain ⟨p', b', hp⟩ : ∃ p' b', PortIo.step (p, s.board) = (p', b') := ⟨_, _, rfl⟩
  rw [hp] at hunder ⊢
  have hstep : Under Board.Later (Idle l s.reader s.returned s.delivered) p' b' := hunder
  cases p' with
  | ret v =>
      have hidle := hstep.done Board.Later.refl
      exact ⟨h.vectors, hidle⟩
  | inb | inw | outb | outw | poll => exact ⟨h.vectors, hstep⟩

theorem accept_tick {l : Line} {s : Machine} {ticks : UInt32} {taken : List UInt8}
    (hb : s.board.At remapped l ticks taken)
    (h0 : s.board.requests 0 = true) : s.accept = { s with
      board := s.board.acknowledged 0
      iflag := false
      job := some (timerHandler s.vars)
      delivered := s.delivered ++ [32] } := by
  have hrequest := hb.request
  rw [if_pos h0] at hrequest
  rw [Machine.accept, hb.acknowledge hrequest (.inl rfl)]
  rfl

theorem accept_key {l : Line} {s : Machine} {ticks : UInt32} {taken : List UInt8}
    (hb : s.board.At remapped l ticks taken)
    (h0 : ¬ s.board.requests 0 = true) (h1 : s.board.requests 1 = true) : s.accept = { s with
      board := s.board.acknowledged 1
      iflag := false
      job := some (keyboardHandler s.vars)
      delivered := s.delivered ++ [33] } := by
  have hrequest := hb.request
  rw [if_neg h0, if_pos h1] at hrequest
  rw [Machine.accept, hb.acknowledge hrequest (.inr rfl)]
  rfl

theorem Ok.accept {l : Line} {s : Machine} (h : s.Ok l) (hl : l ≠ .reading) (hj : s.job = none) :
    s.accept.Ok l := by
  obtain ⟨hb, ⟨es, hh⟩, hcount⟩ := h.idle hj
  by_cases h0 : s.board.requests 0 = true
  · rw [accept_tick hb h0]
    refine ⟨fun v hv => ?_, under_timer (hb.tick h0) hh (hcount.tick)⟩
    rcases List.mem_append.1 hv with hv | hv
    · exact h.vectors v hv
    · exact .inl (List.mem_singleton.1 hv)
  · by_cases h1 : s.board.requests 1 = true
    · rw [accept_key hb h0 h1]
      cases l with
      | asks =>
          refine ⟨fun v hv => ?_, under_keyboard (hb.key h1) hh (hcount.key)⟩
          rcases List.mem_append.1 hv with hv | hv
          · exact h.vectors v hv
          · exact .inr ⟨List.mem_singleton.1 hv, rfl⟩
      | reading => exact absurd rfl hl
      | stuck c =>
          have hoff := hb.line.1
          rw [h1] at hoff
          cases hoff
    · have hrequest := hb.request
      rw [if_neg h0, if_neg h1] at hrequest
      have hs : s.accept = s := by
        rw [Machine.accept, Pair.acknowledge, hrequest]
        rfl
      rw [hs]
      exact h

theorem Ok.next {l : Line} {s : Machine} (h : s.Ok l) (hl : l ≠ .reading) (e : Event) :
    (s.next e).Ok l := by
  cases e with
  | signal σ => exact h.signal σ
  | access =>
      cases hj : s.job with
      | none =>
          simp only [Machine.next, hj]
          exact h
      | some p => exact h.access hj
  | accept =>
      simp only [Machine.next]
      split_ifs with hc
      · exact h.accept hl (Option.isNone_iff_eq_none.1 hc.2)
      · exact h
  | setFlag f =>
      simp only [Machine.next]
      split_ifs
      · exact ⟨h.vectors, h.job⟩
      · exact h
  | call count =>
      cases hj : s.job with
      | some p =>
          simp only [Machine.next, hj]
          exact h
      | none =>
          obtain ⟨hb, ⟨es, hh⟩, hcount⟩ := h.idle hj
          cases hr : s.reader with
          | idle =>
              rw [hr] at hh
              simp only [Machine.next, hj, hr]
              exact ⟨h.vectors, hb, ⟨_, hh.call count⟩, hcount⟩
          | loop | dequeue | readSlot | updateTail =>
              simp only [Machine.next, hj, hr]
              exact h
  | read =>
      simp only [Machine.next]
      split_ifs with hc
      · have hj := Option.isNone_iff_eq_none.1 hc
        obtain ⟨hb, ⟨es, hh⟩, hcount⟩ := h.idle hj
        refine ⟨h.vectors, ?_⟩
        rw [hj]
        exact ⟨hb, ⟨_, hh.step⟩, hcount⟩
      · exact h

theorem Ok.run {l : Line} {s : Machine} (h : s.Ok l) (hl : l ≠ .reading) (events : List Event) :
    (s.run events).Ok l := by
  induction events generalizing s with
  | nil => exact h
  | cons e events ih => exact ih (h.next hl e)

theorem run_access (s : Machine) (p : Prog Vars) (hj : s.job = some p) (n : ℕ) (v : Vars)
    (b : Board) (he : exec n (p, s.board) = (.ret v, b)) :
    ∃ n, (s.run (List.replicate n .access)).job = none := by
  induction n generalizing s p with
  | zero =>
      cases he
      refine ⟨1, ?_⟩
      simp only [run, List.replicate, List.foldl_cons, List.foldl_nil, next, hj, access, step]
  | succ n ih =>
      obtain ⟨p', b', hp⟩ : ∃ p' b', PortIo.step (p, s.board) = (p', b') := ⟨_, _, rfl⟩
      rw [exec, hp] at he
      have hnext : s.next .access = s.access p := by
        simp only [next, hj]
      cases p' with
      | ret v' =>
          refine ⟨1, ?_⟩
          change (s.next .access).job = none
          rw [hnext, access, hp]
      | inb | inw | outb | outw | poll =>
          obtain ⟨m, hm⟩ := ih (s.next .access) _ (by rw [hnext, access, hp])
            (by rw [hnext, access, hp]; exact he)
          exact ⟨m + 1, hm⟩

/-- A program that goes to the ports comes to an end. -/
theorem Ok.ends {l : Line} {s : Machine} (h : s.Ok l) :
    ∃ n, (s.run (List.replicate n .access)).job = none := by
  cases hj : s.job with
  | none => exact ⟨0, hj⟩
  | some p =>
      have hjob := h.job
      rw [hj] at hjob
      obtain ⟨n, v, b, he, -⟩ := hjob.ends Board.Later.refl
      exact s.run_access p hj n v b he

end Machine

/-! ### A scancode that waits -/

namespace Machine

variable {s : Machine}

theorem run_append (s : Machine) (es es' : List Event) :
    s.run (es ++ es') = (s.run es).run es' := List.foldl_append

/-- A tick, with nothing in between; the keyboard has no part in it. -/
theorem run_tick (h : s.Ok .asks) (hj : s.job = none) (hf : s.iflag = true)
    (h0 : s.board.requests 0 = true) :
    ∃ t, s.run [.accept, .access, .setFlag true] = t ∧ t.job = none ∧ t.iflag = true ∧
      t.board.requests 0 = false ∧ t.board.controller = s.board.controller ∧
      t.board.taken = s.board.taken ∧ t.vars.keyboard = s.vars.keyboard := by
  have haccept : s.next .accept = s.accept := by
    rw [next, if_pos ⟨hf, by rw [hj]; rfl⟩]
  refine ⟨{ s with
    board := Device.outb PIC1_COMMAND PIC_EOI (s.board.acknowledged 0)
    iflag := true
    job := none
    vars := { s.vars with timerTicks := s.vars.timerTicks + 1 }
    delivered := s.delivered ++ [32] }, ?_, rfl, rfl, ?_, rfl, rfl, rfl⟩
  · rw [run, List.foldl_cons, haccept, accept_tick (h.idle hj).board h0]
    rfl
  · change (s.board.pic.master.acknowledge 0).requests 0 = false
    exact Chip.requests_acknowledge _ 0

theorem run_key (h : s.Ok .asks) (hj : s.job = none) (hf : s.iflag = true)
    (h0 : ¬ s.board.requests 0 = true) {c : UInt8} (hc : s.board.controller.output = some c) :
    (s.run [.accept, .access, .access]).job = none ∧
      (s.run [.accept, .access, .access]).board.taken = s.board.taken ++ [c] ∧
      (s.run [.accept, .access, .access]).vars =
        { s.vars with keyboard := Input.handleKeyboardInput s.vars.keyboard c } := by
  have h1 : s.board.requests 1 = true := by
    rw [(h.idle hj).board.line.1, hc]
    rfl
  have haccept : s.next .accept = s.accept := by
    rw [next, if_pos ⟨hf, by rw [hj]; rfl⟩]
  have hread : (s.board.acknowledged 1).readOutput.1 = c := by
    change s.board.controller.output.getD s.board.controller.last = c
    rw [hc, Option.getD_some]
  have hrun : s.run [.accept, .access, .access] = { s with
      board := Device.outb PIC1_COMMAND PIC_EOI (s.board.acknowledged 1).readOutput.2
      iflag := false
      job := none
      vars := { s.vars with
        keyboard :=
          Input.handleKeyboardInput s.vars.keyboard (s.board.acknowledged 1).readOutput.1 }
      delivered := s.delivered ++ [33] } := by
    rw [run, List.foldl_cons, haccept, accept_key (h.idle hj).board h0 h1]
    rfl
  rw [hrun, hread]
  refine ⟨rfl, ?_, rfl⟩
  change s.board.taken ++ s.board.controller.output.toList = _
  rw [hc, Option.toList_some]

/-- The interrupts that come before the scancode is read, with a tick first when one is latched. -/
def served (s : Machine) : List Event :=
  (if s.board.requests 0 then [.accept, .access, .setFlag true] else []) ++
    [.accept, .access, .access]

theorem run_served (h : s.Ok .asks) (hj : s.job = none) (hf : s.iflag = true) {c : UInt8}
    (hc : s.board.controller.output = some c) :
    (s.run s.served).job = none ∧ (s.run s.served).board.taken = s.board.taken ++ [c] ∧
      (s.run s.served).vars.keyboard = Input.handleKeyboardInput s.vars.keyboard c := by
  rw [served, run_append]
  split_ifs with h0
  · have hok := h.run Line.noConfusion [.accept, .access, .setFlag true]
    obtain ⟨t, ht, htj, htf, ht0, htc, htt, htk⟩ := run_tick h hj hf h0
    rw [ht] at hok ⊢
    rw [← htt, ← htk]
    obtain ⟨hjob, htaken, hvars⟩ := run_key hok htj htf (by simp [ht0]) (htc ▸ hc)
    exact ⟨hjob, htaken, by rw [hvars]⟩
  · obtain ⟨hjob, htaken, hvars⟩ := run_key h hj hf h0 hc
    exact ⟨hjob, htaken, by rw [show s.run [] = s from rfl, hvars]⟩

end Machine

/-! ### From `pic_remap` on -/

/-- What becomes of the keyboard. -/
def lineOf (controller : Controller) : Line :=
  match controller.output with
  | none => .asks
  | some c => .stuck c

theorem ok_start {pic : Pair} (hpic : ∀ n, pic.master.regs.inService n = false)
    (controller : Controller) : ((start pic controller).next .access).Ok (lineOf controller) := by
  have hnext : (start pic controller).next .access = { start pic controller with
      board := Device.outb PIC1_COMMAND 0x11 (start pic controller).board
      job := some (outbs remapWrites (.ret ⟨Input.boot.keyboard, 0⟩)) } := rfl
  rw [hnext]
  refine ⟨fun v hv => absurd hv List.not_mem_nil, ?_⟩
  refine under_remap hpic ⟨rfl, ?_, rfl, rfl⟩ (⟨rfl, rfl, rfl, rfl⟩ : Heard [] _ _ _ _) ⟨rfl, rfl⟩
  cases hc : controller.output with
  | none =>
      simp only [lineOf, hc]
      change Line.asks.On false controller.output [] []
      rw [hc]
      exact ⟨rfl, rfl⟩
  | some c =>
      simp only [lineOf, hc]
      change (Line.stuck c).On false controller.output [] []
      rw [hc]
      exact ⟨rfl, rfl, rfl, rfl⟩

theorem lineOf_ne (controller : Controller) : lineOf controller ≠ .reading := by
  unfold lineOf
  split
  · exact Line.noConfusion
  · exact Line.noConfusion

theorem ok_run {pic : Pair} (hpic : ∀ n, pic.master.regs.inService n = false)
    (controller : Controller) (events : List Event) :
    ((start pic controller).run (.access :: events)).Ok (lineOf controller) :=
  (ok_start hpic controller).run (lineOf_ne controller) events

/-! ### The interrupts -/

theorem gate_set {idt idt' : UInt8 → IdtEntry} {v : UInt8} {base : UInt32}
    (h : idt v = Interrupts.setIdtGate idt' v base 0x08 0x8E v) :
    (idt v).present ∧ (idt v).gate = ⟨0x08, base⟩ := by
  rw [h, Interrupts.gate_setIdtGate, IdtEntry.present, Interrupts.flags_setIdtGate, if_pos rfl]
  exact ⟨by decide, rfl⟩

/-- Only interrupts with a handler come, and every handler ends.  Where none runs, the next interrupt
is not held back, each latched tick has been handled once or is requested, and each interrupt of
the keyboard has brought one scancode. -/
structure Delivers (a : Stubs) (idt : UInt8 → IdtEntry) (s : Machine) : Prop where
  gates : ∀ v ∈ s.delivered, (initIdt a idt v).present ∧
    (v = 32 ∧ (initIdt a idt v).gate = ⟨0x08, a.irq0⟩ ∨
      v = 33 ∧ (initIdt a idt v).gate = ⟨0x08, a.irq1⟩)
  ends : ∃ n, (s.run (List.replicate n .access)).job = none
  requested : s.job = none → s.board.pic.master.request =
    if s.board.requests 0 then some 0 else if s.board.requests 1 then some 1 else none
  ticks : s.job = none →
    s.vars.timerTicks + (if s.board.requests 0 then 1 else 0) = UInt32.ofNat s.board.latched
  counts : s.job = none → Counts s.delivered s.vars.timerTicks s.board.taken.length

theorem run_interrupts (a : Stubs) (idt : UInt8 → IdtEntry) {pic : Pair}
    (hpic : ∀ n, pic.master.regs.inService n = false) (controller : Controller)
    (events : List Event) :
    Delivers a idt ((start pic controller).run (.access :: events)) := by
  have hok := ok_run hpic controller events
  have htimer : initIdt a idt 32 = Interrupts.setIdtGate idt 32 a.irq0 0x08 0x8E 32 := rfl
  have hkeyboard : initIdt a idt 33 = Interrupts.setIdtGate idt 33 a.irq1 0x08 0x8E 33 := rfl
  refine ⟨fun v hv => ?_, hok.ends, fun hj => (hok.idle hj).board.request, fun hj => ?_,
    fun hj => (hok.idle hj).counts⟩
  · rcases hok.vectors v hv with rfl | ⟨rfl, -⟩
    · obtain ⟨hpresent, hgate⟩ := gate_set htimer
      exact ⟨hpresent, .inl ⟨rfl, hgate⟩⟩
    · obtain ⟨hpresent, hgate⟩ := gate_set hkeyboard
      exact ⟨hpresent, .inr ⟨rfl, hgate⟩⟩
  · have hticks := (hok.idle hj).board.ticks
    rw [← hticks]
    cases ((start pic controller).run (.access :: events)).board.requests 0 with
    | true => rfl
    | false => rfl

/-- The interrupt controllers as firmware leaves them. -/
def firmwarePic : Pair where
  master := ⟨fun _ => false, ⟨fun _ => false, 0, 0x08, 0x04, false, true, false, .ready⟩⟩
  slave := ⟨fun _ => false, ⟨fun _ => false, 0, 0x70, 0x02, false, true, false, .ready⟩⟩

/-- A scancode and a tick have come since `pic_remap`. -/
def oneKey : List Event :=
  List.replicate 17 .access ++
    [.signal (.scancode 30), .signal (.raise 0), .setFlag true]

theorem run_interrupts_oneKey : Delivers ⟨1, 2, 3, 4, 5, 6⟩ (fun _ => ⟨0, 0, 0, 0, 0⟩)
    ((start firmwarePic ⟨none, 0⟩).run (.access :: oneKey)) :=
  run_interrupts _ _ (fun _ => rfl) _ _

/-- The scancodes come to the ring in their order, none is lost and none comes twice.  The one that
waits in the keyboard controller is requested, and read once interrupts are enabled. -/
structure Hears (s : Machine) : Prop where
  requested : s.board.requests 1 = s.board.controller.output.isSome
  order : s.board.taken ++ s.board.controller.output.toList = s.board.received
  ring : ∃ es, Heard es s.vars.keyboard s.reader s.returned s.board.taken
  read : s.iflag = true → ∀ c, s.board.controller.output = some c →
    (s.run s.served).job = none ∧ (s.run s.served).board.taken = s.board.taken ++ [c] ∧
      (s.run s.served).vars.keyboard = Input.handleKeyboardInput s.vars.keyboard c

/-- The scancode `c` waits for ever, and no other one is received. -/
structure Deaf (c : UInt8) (s : Machine) : Prop where
  output : s.board.controller.output = some c
  received : s.board.received = []
  vectors : 33 ∉ s.delivered
  ring : ∃ es, Heard es s.vars.keyboard s.reader s.returned []

theorem run_keyboard {pic : Pair} (hpic : ∀ n, pic.master.regs.inService n = false)
    (controller : Controller) (events : List Event)
    (hj : ((start pic controller).run (.access :: events)).job = none) :
    (controller.output = none → Hears ((start pic controller).run (.access :: events))) ∧
      ∀ c, controller.output = some c →
        Deaf c ((start pic controller).run (.access :: events)) := by
  have hok := ok_run hpic controller events
  obtain ⟨hb, ⟨es, hh⟩, -⟩ := hok.idle hj
  have hline := hb.line
  refine ⟨fun hc => ?_, fun c hc => ?_⟩
  · simp only [lineOf, hc] at hline hok
    exact ⟨hline.1, hline.2, ⟨es, hh⟩, fun hf c hout => Machine.run_served hok hj hf hout⟩
  · simp only [lineOf, hc] at hline hok
    obtain ⟨-, hout, htaken, hreceived⟩ := hline
    rw [htaken] at hh
    refine ⟨hout, hreceived, fun hv => ?_, es, hh⟩
    rcases hok.vectors 33 hv with h | ⟨-, h⟩
    · exact absurd h (by decide)
    · cases h

theorem run_keyboard_oneKey : Hears ((start firmwarePic ⟨none, 0⟩).run (.access :: oneKey)) :=
  (run_keyboard (fun _ => rfl) ⟨none, 0⟩ oneKey rfl).1 rfl

end NosmeriOs.Pic
