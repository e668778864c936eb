import NosmeriOs.Memory

/-! # A part of the x86 machine in protected mode

Registers, flags, segment selectors and a byte-addressed memory, with the instructions that
save and restore them on a stack.  Straight-line code is a list of instructions; only returns
set `eip`.  A stack pointer that runs below address 0 wraps, as in the machine.

* `Eflags`: the bits a privileged program cannot change have their fixed values.  `pushfd` and
  `popfd` then lose nothing (`ofWord_word`).
* `Stacked m a ws`: the words `ws` lie at `a`, `a + 4`, ….  `pushAll_spec` says what a sequence
  of pushes leaves, `popa_spec`, `popfd_spec`, `ret_spec` and `iret_spec` what is taken off
  a stack that has it. -/

namespace X86

open Bytes Memory

/-! ### Flags -/

/-- The bits of EFLAGS that code at privilege level 0 can set and clear with `popfd`; reserved
bits, RF, VM, VIF and VIP are not among them. -/
def FLAGS : UInt32 := 0x247FD5

/-- The interrupt flag. -/
def IF : UInt32 := 0x200

/-- EFLAGS outside virtual-8086 mode, with no debug exception pending: the reserved bit 1 is
set, and of the bits outside `FLAGS` no other. -/
structure Eflags where
  word : UInt32
  ok : word &&& ~~~FLAGS = 2

namespace Eflags

@[ext] theorem ext {f g : Eflags} (h : f.word = g.word) : f = g := by
  cases f
  cases g
  cases h
  rfl

/-- What a word popped from the stack makes of EFLAGS. -/
def ofWord (w : UInt32) : Eflags := ⟨w &&& FLAGS ||| 2, by
  have h : (w &&& FLAGS ||| 2) &&& ~~~FLAGS = w &&& FLAGS &&& ~~~FLAGS ||| 2 &&& ~~~FLAGS :=
    UInt32.toBitVec_inj.1 (BitVec.and_or_distrib_right)
  rw [h, UInt32.and_assoc, show FLAGS &&& ~~~FLAGS = 0 by decide, UInt32.and_zero]
  decide⟩

/-- EFLAGS come back from the stack as they were saved. -/
theorem ofWord_word (f : Eflags) : ofWord f.word = f := by
  apply Eflags.ext
  show f.word &&& FLAGS ||| 2 = f.word
  rw [← f.ok]
  have h : f.word &&& FLAGS ||| f.word &&& ~~~FLAGS = f.word &&& (FLAGS ||| ~~~FLAGS) :=
    UInt32.toBitVec_inj.1 BitVec.and_or_distrib_left.symm
  rw [h, show FLAGS ||| ~~~FLAGS = 0xFFFFFFFF by decide]
  exact UInt32.toBitVec_inj.1 BitVec.and_allOnes

def interrupts (f : Eflags) : Prop := f.word &&& IF ≠ 0

end Eflags

/-! ### The machine -/

inductive Reg where
  | eax | ecx | edx | ebx | esp | ebp | esi | edi
deriving DecidableEq

/-- The data segment registers; `ss` goes with `cs`. -/
inductive Seg where
  | ds | es | fs | gs
deriving DecidableEq

structure Cpu where
  regs : Reg → UInt32
  eflags : Eflags
  eip : UInt32
  cs : UInt16
  ss : UInt16
  segs : Seg → UInt16
  mem : Mem

inductive Instr where
  | pushfd
  | popfd
  | pusha
  | popa
  | ret
  | iret
  /-- `mov dst, [base + disp]` -/
  | load (dst base : Reg) (disp : UInt32)
  /-- `mov [base + disp], src` -/
  | store (base : Reg) (disp : UInt32) (src : Reg)
  /-- `mov ax, imm` -/
  | movAx (imm : UInt16)
  /-- `mov seg, ax` -/
  | movSeg (seg : Seg)
deriving DecidableEq

namespace Cpu

def esp (c : Cpu) : UInt32 := c.regs .esp

def setReg (c : Cpu) (r : Reg) (w : UInt32) : Cpu :=
  { c with regs := Function.update c.regs r w }

def load32 (c : Cpu) (a : UInt32) : UInt32 := c.mem.load32 a.toNat

def push (c : Cpu) (w : UInt32) : Cpu :=
  { c.setReg .esp (c.esp - 4) with mem := c.mem.store32 (c.esp - 4).toNat w }

/-- The word on top of the stack, and the machine without it. -/
def pop (c : Cpu) : UInt32 × Cpu := (c.load32 c.esp, c.setReg .esp (c.esp + 4))

/-- Pop into a register. -/
def popReg (c : Cpu) (r : Reg) : Cpu :=
  let (w, c) := c.pop
  c.setReg r w

def pushAll (c : Cpu) (ws : List UInt32) : Cpu := ws.foldl push c

def jump (c : Cpu) (target : UInt32) : Cpu := { c with eip := target }

/-- `call`, with the address behind it. -/
def call (c : Cpu) (target ret : UInt32) : Cpu := (c.push ret).jump target

/-- `iret` pops the outer stack pointer too when it leaves the privilege level. -/
def iret (c : Cpu) : Cpu :=
  let (eip, c) := c.pop
  let (cs, c) := c.pop
  let (flags, c) := c.pop
  let c := { c with eip := eip, eflags := .ofWord flags }
  if cs.toUInt16 &&& 3 = c.cs &&& 3 then { c with cs := cs.toUInt16 }
  else
    let (esp, c) := c.pop
    let (ss, c) := c.pop
    { c.setReg .esp esp with cs := cs.toUInt16, ss := ss.toUInt16 }

def exec (c : Cpu) : Instr → Cpu
  | .pushfd => c.push c.eflags.word
  | .popfd =>
      let (w, c) := c.pop
      { c with eflags := .ofWord w }
  | .pusha => c.pushAll ([.eax, .ecx, .edx, .ebx, .esp, .ebp, .esi, .edi].map c.regs)
  | .popa =>
      let c := ((c.popReg .edi).popReg .esi).popReg .ebp
      let c := c.setReg .esp (c.esp + 4)
      (((c.popReg .ebx).popReg .edx).popReg .ecx).popReg .eax
  | .ret =>
      let (w, c) := c.pop
      { c with eip := w }
  | .iret => c.iret
  | .load dst base disp => c.setReg dst (c.load32 (c.regs base + disp))
  | .store base disp src =>
      { c with mem := c.mem.store32 (c.regs base + disp).toNat (c.regs src) }
  | .movAx imm =>
      c.setReg .eax ((c.regs .eax &&& 0xFFFF0000) ||| imm.toUInt32)
  | .movSeg seg => { c with segs := Function.update c.segs seg (c.regs .eax).toUInt16 }

/-- Straight-line code. -/
def execAll (c : Cpu) (is : List Instr) : Cpu := is.foldl exec c

end Cpu

/-! ### Words on a stack -/

/-- The words lie one above the other from `a` on. -/
def Stacked (m : Mem) : ℕ → List UInt32 → Prop
  | _, [] => True
  | a, w :: ws => m.load32 a = w ∧ Stacked m (a + 4) ws

/-- Words written one below the other. -/
def storeDown (m : Mem) : ℕ → List UInt32 → Mem
  | _, [] => m
  | a, w :: ws => storeDown (m.store32 (a - 4) w) (a - 4) ws

theorem Stacked.congr {m m' : Mem} {ws : List UInt32} : ∀ {a : ℕ}, Stacked m a ws →
    (∀ x, a ≤ x → x < a + 4 * ws.length → m' x = m x) → Stacked m' a ws := by
  induction ws with
  | nil => exact fun _ _ => trivial
  | cons w ws ih =>
      intro a h hm
      simp only [List.length_cons] at hm
      refine ⟨?_, ih h.2 fun x h1 h2 => hm x (by omega) (by omega)⟩
      rw [← h.1]
      exact Mem.load32_congr fun x h1 h2 => hm x h1 (by omega)

theorem stacked_append {m : Mem} {ws vs : List UInt32} : ∀ {a : ℕ},
    Stacked m a (ws ++ vs) ↔ Stacked m a ws ∧ Stacked m (a + 4 * ws.length) vs := by
  induction ws with
  | nil => simp [Stacked]
  | cons w ws ih =>
      intro a
      have ha : a + 4 + 4 * ws.length = a + 4 * (ws.length + 1) := by ring
      rw [List.cons_append, List.length_cons]
      simp only [Stacked, ih, ha, and_assoc]

/-- Nothing above the start is touched, nor anything below the last word. -/
theorem storeDown_other {ws : List UInt32} : ∀ {m : Mem} {a x : ℕ}, 4 * ws.length ≤ a →
    (x < a - 4 * ws.length ∨ a ≤ x) → storeDown m a ws x = m x := by
  induction ws with
  | nil => exact fun _ _ => rfl
  | cons w ws ih =>
      intro m a x ha h
      rw [List.length_cons] at ha h
      show storeDown (m.store32 (a - 4) w) (a - 4) ws x = m x
      rw [ih (by omega) (by omega), Mem.store32_other _ _ (by omega)]

theorem stacked_storeDown {ws : List UInt32} : ∀ {m : Mem} {a : ℕ}, 4 * ws.length ≤ a →
    Stacked (storeDown m a ws) (a - 4 * ws.length) ws.reverse := by
  induction ws with
  | nil => exact fun _ => trivial
  | cons w ws ih =>
      intro m a h
      rw [List.length_cons] at h
      have hbase : a - 4 * (w :: ws).length = a - 4 - 4 * ws.length := by
        rw [List.length_cons]
        omega
      rw [List.reverse_cons, hbase, stacked_append, List.length_reverse]
      refine ⟨ih (by omega), ?_, trivial⟩
      have hat : a - 4 - 4 * ws.length + 4 * ws.length = a - 4 := by omega
      rw [hat]
      show (storeDown (m.store32 (a - 4) w) (a - 4) ws).load32 (a - 4) = w
      rw [Mem.load32_congr fun x h1 h2 => storeDown_other (by omega) (by omega),
        Mem.load32_store32_same]

/-! ### What the instructions do to a stack -/

namespace Cpu

variable {c : Cpu}

theorem toNat_sub_four {a : UInt32} (h : 4 ≤ a.toNat) : (a - 4).toNat = a.toNat - 4 :=
  UInt32.toNat_sub_of_le _ _ (UInt32.le_iff_toNat_le.2 h)

theorem toNat_add_four {a : UInt32} (h : a.toNat + 4 < 2 ^ 32) : (a + 4).toNat = a.toNat + 4 := by
  rw [UInt32.toNat_add]
  exact Nat.mod_eq_of_lt h

/-- Pushes write the words one below the other and leave every other register alone. -/
theorem pushAll_spec {ws : List UInt32} : ∀ {c : Cpu}, 4 * ws.length ≤ c.esp.toNat →
    (c.pushAll ws).esp.toNat = c.esp.toNat - 4 * ws.length ∧
      (c.pushAll ws).mem = storeDown c.mem c.esp.toNat ws ∧
      ∃ esp, c.pushAll ws = { c with
        regs := Function.update c.regs .esp esp
        mem := storeDown c.mem c.esp.toNat ws } := by
  induction ws with
  | nil => exact fun {c} _ => ⟨rfl, rfl, c.esp, by simp [pushAll, storeDown, esp]⟩
  | cons w ws ih =>
      intro c h
      rw [List.length_cons] at h
      have hesp : (c.push w).esp = c.esp - 4 := by simp [push, setReg, esp]
      have hsub := toNat_sub_four (a := c.esp) (by omega)
      have hmem : (c.push w).mem = c.mem.store32 (c.esp.toNat - 4) w := by
        rw [← hsub]
        rfl
      obtain ⟨he, hm, x, hx⟩ := ih (c := c.push w) (by rw [hesp]; omega)
      have hall : c.pushAll (w :: ws) = (c.push w).pushAll ws := rfl
      rw [hesp, hsub, hmem] at hm hx
      rw [hesp, hsub] at he
      rw [hall, List.length_cons]
      refine ⟨by omega, hm, x, ?_⟩
      rw [hx]
      simp [push, setReg, storeDown]

theorem pushAll_jump (c : Cpu) (target : UInt32) (ws : List UInt32) :
    (c.jump target).pushAll ws = (c.pushAll ws).jump target := by
  induction ws generalizing c with
  | nil => rfl
  | cons w ws ih => exact ih (c.push w)

theorem regs_push (c : Cpu) (w : UInt32) {r : Reg} (h : r ≠ .esp) :
    (c.push w).regs r = c.regs r :=
  Function.update_of_ne h _ _

theorem esp_push (c : Cpu) (w : UInt32) : (c.push w).esp = c.esp - 4 := by
  simp [push, setReg, esp]

/-- A call followed by `pushfd` and `pusha` saves the whole machine behind the return address;
`pusha` saves the stack pointer as it finds it. -/
theorem call_pushfd_pusha (c : Cpu) (target ret : UInt32) :
    ((c.call target ret).exec .pushfd).exec .pusha =
      (c.pushAll [ret, c.eflags.word, c.regs .eax, c.regs .ecx, c.regs .edx, c.regs .ebx,
        c.esp - 4 - 4, c.regs .ebp, c.regs .esi, c.regs .edi]).jump target := by
  have hcall : (c.call target ret).exec .pushfd =
      ((c.push ret).push c.eflags.word).jump target := rfl
  have hall : ∀ ws, c.pushAll (ret :: c.eflags.word :: ws) =
      ((c.push ret).push c.eflags.word).pushAll ws := fun _ => rfl
  have hregs : ∀ r, r ≠ .esp → ((c.push ret).push c.eflags.word).regs r = c.regs r := by
    intro r hr
    rw [regs_push _ _ hr, regs_push _ _ hr]
  have hesp : ((c.push ret).push c.eflags.word).esp = c.esp - 4 - 4 := by
    rw [esp_push, esp_push]
  rw [hcall, hall]
  generalize (c.push ret).push c.eflags.word = x at hregs hesp
  have hpusha : (x.jump target).exec .pusha = (x.pushAll
      ([Reg.eax, .ecx, .edx, .ebx, .esp, .ebp, .esi, .edi].map x.regs)).jump target :=
    pushAll_jump x target _
  rw [hpusha, ← hregs .eax (by decide), ← hregs .ecx (by decide), ← hregs .edx (by decide),
    ← hregs .ebx (by decide), ← hregs .ebp (by decide), ← hregs .esi (by decide),
    ← hregs .edi (by decide), ← hesp]
  rfl

/-- Popping takes the word on top. -/
theorem pop_spec {w : UInt32} {ws : List UInt32} (h : Stacked c.mem c.esp.toNat (w :: ws)) :
    c.pop = (w, c.setReg .esp (c.esp + 4)) := by
  unfold pop load32
  rw [h.1]

/-- The registers that `popa` restores. -/
def frameRegs (edi esi ebp esp ebx edx ecx eax : UInt32) : Reg → UInt32
  | .eax => eax
  | .ecx => ecx
  | .edx => edx
  | .ebx => ebx
  | .esp => esp
  | .ebp => ebp
  | .esi => esi
  | .edi => edi

theorem popa_spec {edi esi ebp skip ebx edx ecx eax : UInt32} {ws : List UInt32}
    (h : Stacked c.mem c.esp.toNat (edi :: esi :: ebp :: skip :: ebx :: edx :: ecx :: eax :: ws))
    (hlt : c.esp.toNat + 32 < 2 ^ 32) :
    c.exec .popa = { c with regs := frameRegs edi esi ebp (c.esp + 32) ebx edx ecx eax } := by
  obtain ⟨h0, h1, h2, -, h4, h5, h6, h7, -⟩ := h
  -- the stack pointer before each of the pops
  have a1 : (c.esp + 4).toNat = c.esp.toNat + 4 := toNat_add_four (by omega)
  have a2 : (c.esp + 4 + 4).toNat = c.esp.toNat + 4 + 4 := by rw [toNat_add_four (by omega), a1]
  have a3 : (c.esp + 4 + 4 + 4).toNat = c.esp.toNat + 4 + 4 + 4 := by
    rw [toNat_add_four (by omega), a2]
  have a4 : (c.esp + 4 + 4 + 4 + 4).toNat = c.esp.toNat + 4 + 4 + 4 + 4 := by
    rw [toNat_add_four (by omega), a3]
  have a5 : (c.esp + 4 + 4 + 4 + 4 + 4).toNat = c.esp.toNat + 4 + 4 + 4 + 4 + 4 := by
    rw [toNat_add_four (by omega), a4]
  have a6 : (c.esp + 4 + 4 + 4 + 4 + 4 + 4).toNat = c.esp.toNat + 4 + 4 + 4 + 4 + 4 + 4 := by
    rw [toNat_add_four (by omega), a5]
  have a7 : (c.esp + 4 + 4 + 4 + 4 + 4 + 4 + 4).toNat =
      c.esp.toNat + 4 + 4 + 4 + 4 + 4 + 4 + 4 := by
    rw [toNat_add_four (by omega), a6]
  have hskip : c.esp + 4 + 4 + 4 + 4 + 4 + 4 + 4 + 4 = c.esp + 32 := by
    simp only [UInt32.add_assoc]
    rfl
  simp only [esp] at h0 h1 h2 h4 h5 h6 h7 a1 a2 a3 a4 a5 a6 a7 hskip
  simp only [exec, popReg, pop, setReg, load32, esp, Function.update_apply, reduceCtorEq, if_true,
    if_false, h0, a1, h1, a2, h2, a4, h4, a5, h5, a6, h6, a7, h7, hskip]
  rw [Cpu.mk.injEq]
  refine ⟨funext fun r => ?_, rfl, rfl, rfl, rfl, rfl, rfl⟩
  cases r <;> simp [frameRegs]

theorem popfd_spec {w : UInt32} {ws : List UInt32} (h : Stacked c.mem c.esp.toNat (w :: ws)) :
    c.exec .popfd = { c.setReg .esp (c.esp + 4) with eflags := .ofWord w } := by
  simp only [exec, pop_spec h]

theorem ret_spec {w : UInt32} {ws : List UInt32} (h : Stacked c.mem c.esp.toNat (w :: ws)) :
    c.exec .ret = { c.setReg .esp (c.esp + 4) with eip := w } := by
  simp only [exec, pop_spec h]

@[simp] theorem frameRegs_esp (edi esi ebp esp ebx edx ecx eax : UInt32) :
    frameRegs edi esi ebp esp ebx edx ecx eax .esp = esp := rfl

@[simp] theorem update_frameRegs (edi esi ebp esp ebx edx ecx eax x : UInt32) :
    Function.update (frameRegs edi esi ebp esp ebx edx ecx eax) .esp x =
      frameRegs edi esi ebp x ebx edx ecx eax := by
  funext r
  cases r <;> simp [frameRegs]

/-- `popa`, `popfd` and `ret` take a whole machine off the stack. -/
theorem popa_popfd_ret {edi esi ebp skip ebx edx ecx eax flags ret : UInt32} {ws : List UInt32}
    (h : Stacked c.mem c.esp.toNat
      (edi :: esi :: ebp :: skip :: ebx :: edx :: ecx :: eax :: flags :: ret :: ws))
    (hlt : c.esp.toNat + 40 < 2 ^ 32) :
    ((c.exec .popa).exec .popfd).exec .ret = { c with
      regs := frameRegs edi esi ebp (c.esp + 40) ebx edx ecx eax
      eflags := .ofWord flags
      eip := ret } := by
  have h32 : (c.esp + 32).toNat = c.esp.toNat + 32 := by
    rw [UInt32.toNat_add]
    exact Nat.mod_eq_of_lt (show c.esp.toNat + 32 < 2 ^ 32 by omega)
  have h36 : (c.esp + 32 + 4).toNat = c.esp.toNat + 32 + 4 := by
    rw [toNat_add_four (by omega), h32]
  have h40 : c.esp + 32 + 4 + 4 = c.esp + 40 := by
    simp only [UInt32.add_assoc]
    rfl
  have hpopa := popa_spec h (by omega)
  obtain ⟨-, -, -, -, -, -, -, -, hflags, hret, -⟩ := h
  -- the machine before `popfd`, and the one before `ret`
  obtain ⟨c₁, hc₁⟩ : ∃ c₁, c₁ = c.exec .popa := ⟨_, rfl⟩
  have hesp₁ : c₁.esp = c.esp + 32 := by
    rw [hc₁, hpopa]
    rfl
  have hmem₁ : c₁.mem = c.mem := by rw [hc₁, hpopa]
  have hpopfd : c₁.exec .popfd = { c₁.setReg .esp (c₁.esp + 4) with eflags := .ofWord flags } := by
    refine popfd_spec (show Stacked _ _ [flags] from ?_)
    rw [hmem₁, hesp₁, h32]
    exact ⟨hflags, trivial⟩
  obtain ⟨c₂, hc₂⟩ : ∃ c₂, c₂ = c₁.exec .popfd := ⟨_, rfl⟩
  have hesp₂ : c₂.esp = c.esp + 32 + 4 := by
    rw [hc₂, hpopfd, ← hesp₁]
    simp [setReg, esp]
  have hpop : c₂.exec .ret = { c₂.setReg .esp (c₂.esp + 4) with eip := ret } := by
    refine ret_spec (show Stacked _ _ [ret] from ?_)
    rw [hesp₂, h36, hc₂, hpopfd]
    simp only [setReg, hmem₁]
    exact ⟨hret, trivial⟩
  rw [← hc₁, ← hc₂, hpop, hesp₂, h40, hc₂, hpopfd, hc₁, hpopa]
  simp [setReg]

/-- `iret` to an outer privilege level: five words are taken off the inner stack. -/
theorem iret_outer_spec {eip cs flags sp ss : UInt32} {ws : List UInt32}
    (h : Stacked c.mem c.esp.toNat (eip :: cs :: flags :: sp :: ss :: ws))
    (hlt : c.esp.toNat + 20 < 2 ^ 32) (hcs : cs.toUInt16 &&& 3 ≠ c.cs &&& 3) :
    c.exec .iret = { c.setReg .esp sp with
      eip := eip
      cs := cs.toUInt16
      eflags := .ofWord flags
      ss := ss.toUInt16 } := by
  obtain ⟨h0, h1, h2, h3, h4, -⟩ := h
  have a1 : (c.esp + 4).toNat = c.esp.toNat + 4 := toNat_add_four (by omega)
  have a2 : (c.esp + 4 + 4).toNat = c.esp.toNat + 4 + 4 := by rw [toNat_add_four (by omega), a1]
  have a3 : (c.esp + 4 + 4 + 4).toNat = c.esp.toNat + 4 + 4 + 4 := by
    rw [toNat_add_four (by omega), a2]
  have a4 : (c.esp + 4 + 4 + 4 + 4).toNat = c.esp.toNat + 4 + 4 + 4 + 4 := by
    rw [toNat_add_four (by omega), a3]
  simp only [esp] at h0 h1 h2 h3 h4 a1 a2 a3 a4
  simp only [exec, iret, pop, setReg, load32, esp, Function.update_self, h0, a1, h1, if_neg hcs,
    a2, h2, a3, h3, a4, h4, Function.update_idem]

end Cpu

end X86
