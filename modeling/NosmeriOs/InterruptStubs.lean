import NosmeriOs.Interrupts
import NosmeriOs.ContextSwitch

/-! # Interrupt stubs (`arch/x86/boot.asm`, `gdt.cpp`, `idt.cpp`)

A stub of `boot.asm` saves registers, calls a handler in C++ and takes the registers back.

* `initGdt`, `initIdt`: the tables.  `int_user` says which vectors a program may call.
* `enter_irq`, `enter_isr14`, `enter_isr80`: what a stub leaves on the stack before the call.
* `exit_irq`, `exit_isr14`, `exit_isr80`: what it takes back from there, and for `isr80` what the
  handler has put in place of `eax` (`Back`). -/

namespace NosmeriOs.Interrupts

open Bytes Memory X86 ContextSwitch

/-! ### The descriptor tables -/

structure GdtEntry where
  limitLow : UInt16
  baseLow : UInt16
  baseMiddle : UInt8
  access : UInt8
  granularity : UInt8
  baseHigh : UInt8

def setGdtGate (gdt : ℕ → GdtEntry) (num : ℕ) (base limit : UInt32) (access gran : UInt8) :
    ℕ → GdtEntry :=
  Function.update gdt num {
    baseLow := (base &&& 0xFFFF).toUInt16
    baseMiddle := (base >>> 16 &&& 0xFF).toUInt8
    baseHigh := (base >>> 24 &&& 0xFF).toUInt8
    limitLow := (limit &&& 0xFFFF).toUInt16
    granularity := (limit >>> 16 &&& 0x0F).toUInt8 ||| (gran &&& 0xF) <<< 4
    access := access }

/-- `sizeof(tss_entry)` -/
def TSS_SIZE : UInt32 := 104

/-- `init_tss`, with the address of `tss`; of its fields the processor reads two. -/
def initTss (tss : UInt32) (gdt : ℕ → GdtEntry) : Tss × (ℕ → GdtEntry) :=
  ({ ss0 := 0x10, esp0 := 0x800000 }, setGdtGate gdt 5 tss (TSS_SIZE - 1) 0x89 0)

def setKernelStack (tss : Tss) (stackTop : UInt32) : Tss := { tss with esp0 := stackTop }

def initGdt (tss : UInt32) (gdt : ℕ → GdtEntry) : Tss × (ℕ → GdtEntry) :=
  let gdt := setGdtGate gdt 0 0 0 0 0
  let gdt := setGdtGate gdt 1 0 0xFFFFF 0b10011010 0b1100
  let gdt := setGdtGate gdt 2 0 0xFFFFF 0b10010010 0b1100
  let gdt := setGdtGate gdt 3 0 0xFFFFF 0b11111010 0b1100
  let gdt := setGdtGate gdt 4 0 0xFFFFF 0b11110010 0b1100
  initTss tss gdt

/-- The privilege level of the segment that a selector names. -/
def dpl (gdt : ℕ → GdtEntry) (sel : UInt16) : UInt16 :=
  ((gdt (sel >>> 3).toNat).access >>> 5 &&& 3).toUInt16

structure IdtEntry where
  baseLow : UInt16
  selector : UInt16
  always0 : UInt8
  flags : UInt8
  baseHigh : UInt16

def setIdtGate (idt : UInt8 → IdtEntry) (num : UInt8) (base : UInt32) (sel : UInt16)
    (flags : UInt8) : UInt8 → IdtEntry :=
  Function.update idt num {
    baseLow := (base &&& 0xFFFF).toUInt16
    baseHigh := (base >>> 16 &&& 0xFFFF).toUInt16
    selector := sel
    always0 := 0
    flags := flags }

/-- The addresses of the stubs. -/
structure Stubs where
  isr0 : UInt32
  isr13 : UInt32
  isr14 : UInt32
  irq0 : UInt32
  irq1 : UInt32
  isr80 : UInt32

def initIdt (a : Stubs) (idt : UInt8 → IdtEntry) : UInt8 → IdtEntry :=
  let idt := (List.range 256).foldl (fun idt i => setIdtGate idt (.ofNat i) 0 0 0) idt
  let idt := setIdtGate idt 0 a.isr0 0x08 0x8E
  let idt := setIdtGate idt 13 a.isr13 0x08 0x8E
  let idt := setIdtGate idt 14 a.isr14 0x08 0x8E
  let idt := setIdtGate idt 32 a.irq0 0x08 0x8E
  let idt := setIdtGate idt 33 a.irq1 0x08 0x8E
  setIdtGate idt 0x80 a.isr80 0x08 0xEE

namespace IdtEntry

def gate (e : IdtEntry) : Gate where
  selector := e.selector
  offset := e.baseHigh.toUInt32 <<< 16 ||| e.baseLow.toUInt32

def present (e : IdtEntry) : Prop := e.flags &&& 0x80 ≠ 0

def dpl (e : IdtEntry) : UInt8 := e.flags >>> 5 &&& 3

instance (e : IdtEntry) : Decidable e.present := inferInstanceAs (Decidable (_ ≠ _))

end IdtEntry

/-- `int n`; without a gate that may be called there is an exception. -/
def int (idt : UInt8 → IdtEntry) (tss : Tss) (c : Cpu) (n : UInt8) : Option Cpu :=
  if (idt n).present ∧ (c.cs &&& 3).toUInt8 ≤ (idt n).dpl then
    some (c.interrupt tss (idt n).gate none)
  else none

/-- An address comes back from its two halves. -/
theorem halves (w : UInt32) : (w >>> 16 &&& 0xFFFF).toUInt16.toUInt32 <<< 16 |||
    (w &&& 0xFFFF).toUInt16.toUInt32 = w := by
  apply UInt32.toNat.inj
  have hw := w.toNat_lt
  have hmask : ∀ n : ℕ, n &&& 65535 = n % 65536 := fun n => Nat.and_two_pow_sub_one_eq_mod n 16
  have hhi : (w >>> 16 &&& 0xFFFF).toUInt16.toUInt32.toNat = w.toNat / 65536 := by
    simp [hmask, Nat.shiftRight_eq_div_pow]
    omega
  have hlo : (w &&& 0xFFFF).toUInt16.toUInt32.toNat = w.toNat % 65536 := by
    simp [hmask]
  have hlt : (w.toNat / 65536) <<< 16 < 2 ^ 32 := by
    rw [Nat.shiftLeft_eq]
    omega
  rw [UInt32.toNat_or, UInt32.toNat_shiftLeft, hhi, hlo,
    show (16 : UInt32).toNat % 32 = 16 by decide, Nat.mod_eq_of_lt hlt,
    ← Nat.shiftLeft_add_eq_or_of_lt (by omega), Nat.shiftLeft_eq]
  omega

theorem gate_setIdtGate (idt : UInt8 → IdtEntry) (num : UInt8) (base : UInt32) (sel : UInt16)
    (flags : UInt8) : (setIdtGate idt num base sel flags num).gate = ⟨sel, base⟩ := by
  rw [setIdtGate, Function.update_self, IdtEntry.gate, halves]

theorem flags_setIdtGate (idt : UInt8 → IdtEntry) (num : UInt8) (base : UInt32) (sel : UInt16)
    (flags n : UInt8) : (setIdtGate idt num base sel flags n).flags =
      if n = num then flags else (idt n).flags := by
  rw [setIdtGate, Function.update_apply]
  split
  · rfl
  · rfl

/-- The loop of `init_idt` leaves no gate present. -/
theorem flags_cleared (idt : UInt8 → IdtEntry) (n : UInt8) :
    ((List.range 256).foldl (fun idt i => setIdtGate idt (.ofNat i) 0 0 0) idt n).flags = 0 := by
  have h : ∀ l : List ℕ, n.toNat ∈ l →
      (l.foldl (fun idt i => setIdtGate idt (.ofNat i) 0 0 0) idt n).flags = 0 := by
    intro l
    induction l using List.reverseRecOn with
    | nil => simp
    | append_singleton l i ih =>
        intro hmem
        rw [List.foldl_append, List.foldl_cons, List.foldl_nil]
        rw [flags_setIdtGate]
        split
        · rfl
        · rename_i hi
          apply ih
          rcases List.mem_append.1 hmem with hl | hl
          · exact hl
          · refine absurd ?_ hi
            rw [← List.mem_singleton.1 hl]
            exact UInt8.ofNat_toNat.symm
  exact h _ (List.mem_range.2 n.toNat_lt)

/-- **A program can enter the kernel through vector 0x80 only.** -/
theorem int_user (a : Stubs) (idt : UInt8 → IdtEntry) (tss : Tss) (c : Cpu) (hc : c.cs &&& 3 = 3)
    (n : UInt8) : int (initIdt a idt) tss c n =
      if n = 0x80 then some (c.interrupt tss ⟨0x08, a.isr80⟩ none) else none := by
  have hflags : (initIdt a idt n).flags =
      if n = 0x80 then 0xEE else if n = 33 ∨ n = 32 ∨ n = 14 ∨ n = 13 ∨ n = 0 then 0x8E else 0 := by
    simp only [initIdt, flags_setIdtGate, flags_cleared, ite_or]
  simp only [int, hc, IdtEntry.present, IdtEntry.dpl, hflags]
  by_cases hn : n = 0x80
  · subst hn
    rw [if_pos rfl, if_pos rfl, if_pos (by decide)]
    exact congrArg (fun g => some (c.interrupt tss g none)) (gate_setIdtGate _ _ _ _ _)
  · rw [if_neg hn, if_neg hn, if_neg]
    split
    · decide
    · decide

/-! ### The stubs -/

/-- What a stub does before and after the call of its handler, and which bytes from the stack
pointer on it lends to the handler. -/
structure Stub where
  enter : List Entry
  exit : List Entry
  lends : ℕ → Prop

def pushSegs : List Entry := [.pushSeg .ds, .pushSeg .es, .pushSeg .fs, .pushSeg .gs]

def kernelSegs : List Entry :=
  [.instr (.movAx 0x10), .instr (.movSeg .ds), .instr (.movSeg .es), .instr (.movSeg .fs),
    .instr (.movSeg .gs)]

def popSegs : List Entry := [.popSeg .gs, .popSeg .fs, .popSeg .es, .popSeg .ds]

def irq0 : Stub where
  enter := [.instr .pusha]
  exit := [.instr .popa, .iret]
  lends _ := False

def irq1 : Stub where
  enter := [.instr .pusha]
  exit := [.instr .popa, .iret]
  lends _ := False

/-- The error code is an argument of the handler. -/
def isr14 : Stub where
  enter := .instr .pusha :: pushSegs ++ kernelSegs ++ [.instr (.load .eax .esp 48), .push .eax]
  exit := .addEsp 4 :: popSegs ++ [.instr .popa, .addEsp 4, .iret]
  lends p := p < 4

/-- The fields of `Registers`. -/
def registersFields : List (ℕ × ℕ) := List.replicate 15 (4, 4)

/-- `offsetof(Registers, eax)` -/
def REGISTERS_EAX : ℕ := offsetof registersFields 11

/-- The handler has a pointer to the registers above its argument and sets `regs->eax`. -/
def isr80 : Stub where
  enter := .instr .pusha :: pushSegs ++ kernelSegs ++ [.push .esp]
  exit := .addEsp 4 :: popSegs ++ [.instr .popa, .iret]
  lends p := p < 4 ∨ 4 + REGISTERS_EAX ≤ p ∧ p < 4 + REGISTERS_EAX + 4

/-! ### What the stubs leave on the stack -/

section enter

variable {i : Cpu} {tss : Tss} {g : Gate} {e : Option UInt32} {d : UInt16 → UInt16}

/-- What `pusha` pushes. -/
def pushaWords (i : Cpu) (esp : UInt32) : List UInt32 :=
  [i.regs .eax, i.regs .ecx, i.regs .edx, i.regs .ebx, esp, i.regs .ebp, i.regs .esi, i.regs .edi]

def segWords (i : Cpu) : List UInt32 :=
  [(i.segs .ds).toUInt32, (i.segs .es).toUInt32, (i.segs .fs).toUInt32, (i.segs .gs).toUInt32]

/-- Room for all that a stub pushes. -/
def Fits (i : Cpu) (tss : Tss) : Prop := 76 ≤ (i.interruptEsp tss).toNat

theorem length_interruptWords : (i.interruptWords e).length ≤ 6 := by
  cases e <;> by_cases h : i.kernel <;> simp [Cpu.interruptWords, h]

/-- `pusha` after an interrupt. -/
theorem interrupt_pusha (hfits : Fits i tss) : ∃ skip, Cpu.Saves i (i.interruptEsp tss).toNat
    (i.interruptWords e ++ pushaWords i skip)
    ((i.interrupt tss g e).execEntry d (.instr .pusha)) := by
  have hlen := length_interruptWords (i := i) (e := e)
  unfold Fits at hfits
  have hroom : 4 * (i.interruptWords e).length ≤ (i.interruptEsp tss).toNat := by omega
  have hint := Cpu.saves_interrupt (g := g) hroom
  exact ⟨_, hint.pusha (by omega)⟩

theorem enter_irq (hfits : Fits i tss) : ∃ skip, Cpu.Pushed i.mem (i.interruptEsp tss).toNat
    (i.interruptWords none ++ pushaWords i skip)
    ((i.interrupt tss g none).execEntries d irq0.enter) := by
  obtain ⟨skip, h⟩ := interrupt_pusha (g := g) (e := none) (d := d) hfits
  rw [irq0, Cpu.execEntries_cons, Cpu.execEntries_nil]
  exact ⟨skip, h.toPushed⟩

theorem kernelSegs_keeps (c : Cpu) : (c.execEntries d kernelSegs).mem = c.mem ∧
    (c.execEntries d kernelSegs).esp = c.esp := by
  refine ⟨rfl, ?_⟩
  simp [kernelSegs, Cpu.execEntries, Cpu.execEntry, Cpu.exec, Cpu.setReg, Cpu.esp]

/-- The part that `isr14` and `isr80` share. -/
theorem enter_segs (hfits : Fits i tss) : ∃ skip, Cpu.Pushed i.mem (i.interruptEsp tss).toNat
    (i.interruptWords e ++ pushaWords i skip ++ segWords i)
    ((i.interrupt tss g e).execEntries d (.instr .pusha :: pushSegs ++ kernelSegs)) := by
  have hlen := length_interruptWords (i := i) (e := e)
  obtain ⟨skip, h⟩ := interrupt_pusha (g := g) (e := e) (d := d) hfits
  obtain ⟨x, hx⟩ : ∃ x, x = (i.interrupt tss g e).execEntry d (.instr .pusha) := ⟨_, rfl⟩
  have hroom : 4 * ((i.interruptWords e ++ pushaWords i skip).length +
      [Seg.ds, .es, .fs, .gs].length) ≤ (i.interruptEsp tss).toNat := by
    unfold Fits at hfits
    rw [List.length_append, show (pushaWords i skip).length = 8 from rfl,
      show [Seg.ds, .es, .fs, .gs].length = 4 from rfl]
    omega
  rw [← hx] at h
  have hsegs := h.pushSegs (d := d) _ hroom
  obtain ⟨hmem, hesp⟩ := kernelSegs_keeps (d := d) (x.execEntries d pushSegs)
  refine ⟨skip, ?_⟩
  rw [Cpu.execEntries_append, Cpu.execEntries_cons, ← hx]
  exact hsegs.toPushed.congr hmem hesp

theorem enter_isr14 (hfits : Fits i tss) : ∃ skip arg,
    Cpu.Pushed i.mem (i.interruptEsp tss).toNat
      (i.interruptWords e ++ pushaWords i skip ++ segWords i ++ [arg])
      ((i.interrupt tss g e).execEntries d isr14.enter) := by
  have hlen := length_interruptWords (i := i) (e := e)
  obtain ⟨skip, h⟩ := enter_segs (g := g) (e := e) (d := d) hfits
  rw [isr14, Cpu.execEntries_append]
  generalize (i.interrupt tss g e).execEntries d
    (.instr .pusha :: pushSegs ++ kernelSegs) = x at h
  rw [Cpu.execEntries_cons, Cpu.execEntries_cons, Cpu.execEntries_nil]
  obtain ⟨y, hy⟩ : ∃ y, y = x.execEntry d (.instr (.load .eax .esp 48)) := ⟨_, rfl⟩
  have hmem : y.mem = x.mem := by
    rw [hy]
    rfl
  have hesp : y.esp = x.esp := by
    rw [hy]
    simp [Cpu.execEntry, Cpu.exec, Cpu.setReg, Cpu.esp]
  rw [← hy]
  refine ⟨skip, y.regs .eax, (h.congr hmem hesp).push _ ?_⟩
  unfold Fits at hfits
  simp only [List.length_append, pushaWords, segWords, List.length_cons, List.length_nil]
  omega

theorem enter_isr80 (hfits : Fits i tss) : ∃ skip arg,
    Cpu.Pushed i.mem (i.interruptEsp tss).toNat
      (i.interruptWords none ++ pushaWords i skip ++ segWords i ++ [arg])
      ((i.interrupt tss g none).execEntries d isr80.enter) := by
  have hlen := length_interruptWords (i := i) (e := none)
  obtain ⟨skip, h⟩ := enter_segs (g := g) (e := none) (d := d) hfits
  rw [isr80, Cpu.execEntries_append]
  generalize (i.interrupt tss g none).execEntries d
    (.instr .pusha :: pushSegs ++ kernelSegs) = x at h
  rw [Cpu.execEntries_cons, Cpu.execEntries_nil]
  refine ⟨skip, _, h.push _ ?_⟩
  unfold Fits at hfits
  simp only [List.length_append, pushaWords, segWords, List.length_cons, List.length_nil]
  omega

end enter

/-! ### What they take back -/

/-- The machine `c` goes on where the machine `i` was, with this in `eax`; its data segments were
`segs` before `iret`. -/
structure Back (dpl : UInt16 → UInt16) (i : Cpu) (eax : UInt32) (segs : Seg → UInt16) (c : Cpu) :
    Prop where
  regs : c.regs = Function.update i.regs .eax eax
  eflags : c.eflags = i.eflags
  eip : c.eip = i.eip
  cs : c.cs = i.cs
  ss : ¬ i.kernel → c.ss = i.ss
  segs : c.segs = fun seg =>
    if ¬ i.kernel ∧ dpl (segs seg) < i.cs &&& 3 then 0 else segs seg

section exit

variable {i c : Cpu} {eax skip : UInt32} {d : UInt16 → UInt16}

/-- What `pusha` pushed, from the top of the stack on, with the value for `eax`. -/
def popaWords (i : Cpu) (skip eax : UInt32) : List UInt32 :=
  [i.regs .edi, i.regs .esi, i.regs .ebp, skip, i.regs .ebx, i.regs .edx, i.regs .ecx, eax]

theorem regs_back (i : Cpu) (esp eax : UInt32) :
    Function.update (Cpu.frameRegs (i.regs .edi) (i.regs .esi) (i.regs .ebp) esp (i.regs .ebx)
      (i.regs .edx) (i.regs .ecx) eax) .esp i.esp = Function.update i.regs .eax eax := by
  funext r
  cases r <;> simp [Cpu.frameRegs, Cpu.esp]

/-- `iret`, from the registers that `popa` restored. -/
theorem Back.of_popa {x : Cpu} {esp : UInt32}
    (hx : x = { c with
      regs := Cpu.frameRegs (i.regs .edi) (i.regs .esi) (i.regs .ebp) esp (i.regs .ebx)
        (i.regs .edx) (i.regs .ecx) eax })
    (h : Cpu.OnTop x i.returnWords) (hc : c.kernel)
    (htop : i.kernel → esp.toNat + 12 = i.esp.toNat) :
    Back d i eax c.segs (x.leave d) ∧ (x.leave d).mem = c.mem := by
  have hkernel : x.kernel := by
    rw [hx]
    exact hc
  have hesp : x.esp = esp := by
    rw [hx]
    rfl
  have hregs : Function.update x.regs .esp i.esp = Function.update i.regs .eax eax := by
    rw [hx, ← regs_back i esp eax]
  have hsegs : x.segs = c.segs := by rw [hx]
  have hmem : x.mem = c.mem := by rw [hx]
  have h12 : i.kernel → x.esp + 12 = i.esp := by
    intro hi
    apply UInt32.toNat.inj
    rw [hesp, UInt32.toNat_add, ← htop hi]
    refine Nat.mod_eq_of_lt (show esp.toNat + 12 < 2 ^ 32 from ?_)
    rw [htop hi]
    exact i.esp.toNat_lt
  obtain ⟨h1, h2, h3, h4, h5, h6, h7⟩ := h.leave (d := d) hkernel h12
  refine ⟨⟨h1.trans hregs, h2, h3, h4, fun hi => ?_, ?_⟩, h5.trans hmem⟩
  · exact h6.trans (if_neg hi)
  · rw [← hsegs]
    exact h7

theorem popa_spec {ws : List UInt32} (h : Cpu.OnTop c (popaWords i skip eax ++ ws)) :
    ∃ x esp, c.execEntry d (.instr .popa) = x ∧ esp.toNat = c.esp.toNat + 32 ∧
      x = { c with
        regs := Cpu.frameRegs (i.regs .edi) (i.regs .esi) (i.regs .ebp) esp (i.regs .ebx)
          (i.regs .edx) (i.regs .ecx) eax } ∧ Cpu.OnTop x ws := by
  obtain ⟨hpopa, hwords⟩ := h.popa (d := d)
  have h32 : 4 * (popaWords i skip eax ++ ws).length = 32 + 4 * ws.length := by
    rw [List.length_append, show (popaWords i skip eax).length = 8 from rfl]
    ring
  refine ⟨_, c.esp + 32, hpopa, ?_, rfl, hwords⟩
  exact h.toNat_add (n := 32) (by rw [h32]; exact Nat.le_add_right _ _)

theorem exit_irq (h : Cpu.OnTop c (popaWords i skip eax ++ i.returnWords)) (hc : c.kernel)
    (htop : i.kernel → c.esp.toNat + 44 = i.esp.toNat) :
    Back d i eax c.segs (c.execEntries d irq0.exit) ∧
      (c.execEntries d irq0.exit).mem = c.mem := by
  obtain ⟨x, esp, hpopa, hesp, hx, hwords⟩ := popa_spec (d := d) h
  rw [irq0, Cpu.execEntries_cons, Cpu.execEntries_cons, Cpu.execEntries_nil, hpopa]
  apply Back.of_popa hx hwords hc
  intro hi
  rw [hesp, ← htop hi]

/-- What `isr14` and `isr80` do first. -/
theorem exit_segs {arg : UInt32} {ws : List UInt32}
    (h : Cpu.OnTop c (arg :: ((segWords i).reverse ++ ws))) :
    ∃ x esp, c.execEntries d (.addEsp 4 :: popSegs) = x ∧ esp.toNat = c.esp.toNat + 20 ∧
      x = { c.setReg .esp esp with segs := i.segs } ∧ Cpu.OnTop x ws := by
  obtain ⟨x, hx⟩ : ∃ x, x = c.setReg .esp (c.esp + 4) := ⟨_, rfl⟩
  have hxesp : x.esp = c.esp + 4 := by
    rw [hx]
    simp [Cpu.setReg, Cpu.esp]
  have hdrop : Cpu.OnTop x
      (([Seg.gs, .fs, .es, .ds].map fun seg => (i.segs seg).toUInt32) ++ ws) := by
    rw [hx]
    exact h.drop
  obtain ⟨htop, esp, hesp, hall⟩ := hdrop.popSegs (d := d)
  have hcons : c.execEntries d (.addEsp 4 :: popSegs) =
      x.execEntries d ([Seg.gs, .fs, .es, .ds].map .popSeg) := by
    rw [Cpu.execEntries_cons, hx]
    rfl
  refine ⟨_, esp, hcons, ?_, ?_, htop⟩
  · rw [hesp, hxesp, h.next]
    rfl
  · rw [hall, hx]
    simp only [Cpu.setReg, Function.update_idem]
    congr 1
    funext seg
    cases seg <;> simp

theorem exit_isr80 {arg : UInt32}
    (h : Cpu.OnTop c (arg :: ((segWords i).reverse ++ (popaWords i skip eax ++ i.returnWords))))
    (hc : c.kernel) (htop : i.kernel → c.esp.toNat + 64 = i.esp.toNat) :
    Back d i eax i.segs (c.execEntries d isr80.exit) ∧
      (c.execEntries d isr80.exit).mem = c.mem := by
  obtain ⟨y, esp, hsegs, hesp, hy, htopy⟩ := exit_segs (d := d) h
  obtain ⟨x, esp', hpopa, hesp', hx, hwords⟩ := popa_spec (d := d) htopy
  have hyesp : y.esp = esp := by
    rw [hy]
    simp [Cpu.setReg, Cpu.esp]
  have hback := Back.of_popa (d := d) hx hwords (by rw [hy]; exact hc) fun hi => by
    rw [hesp', hyesp, hesp, ← htop hi]
  rw [isr80, Cpu.execEntries_append, hsegs, Cpu.execEntries_cons, hpopa]
  rw [hy] at hback
  exact hback

/-- The error code is between the two frames. -/
theorem exit_isr14 {arg code : UInt32}
    (h : Cpu.OnTop c (arg :: ((segWords i).reverse ++
      (popaWords i skip eax ++ code :: i.returnWords))))
    (hc : c.kernel) (htop : i.kernel → c.esp.toNat + 68 = i.esp.toNat) :
    Back d i eax i.segs (c.execEntries d isr14.exit) ∧
      (c.execEntries d isr14.exit).mem = c.mem := by
  obtain ⟨y, esp, hsegs, hesp, hy, htopy⟩ := exit_segs (d := d) h
  obtain ⟨x, esp', hpopa, hesp', hx, hwords⟩ := popa_spec (d := d) htopy
  have hyesp : y.esp = esp := by
    rw [hy]
    simp [Cpu.setReg, Cpu.esp]
  have hxesp : x.esp = esp' := by
    rw [hx]
    rfl
  have hnext := hwords.next
  have hdrop : x.setReg .esp (x.esp + 4) = { y with
      regs := Cpu.frameRegs (i.regs .edi) (i.regs .esi) (i.regs .ebp) (esp' + 4) (i.regs .ebx)
        (i.regs .edx) (i.regs .ecx) eax } := by
    rw [hxesp, hx]
    simp only [Cpu.setReg, Cpu.update_frameRegs]
  have hback := Back.of_popa (d := d) hdrop hwords.drop (by rw [hy]; exact hc) fun hi => by
    rw [← hxesp, hnext, hxesp, hesp', hyesp, hesp, ← htop hi]
  rw [isr14, Cpu.execEntries_append, hsegs, Cpu.execEntries_cons, hpopa]
  rw [hy] at hback
  exact hback

end exit

end NosmeriOs.Interrupts
