import NosmeriOs.X86

/-! # Interrupts on the x86 machine

An interrupt goes through a gate of privilege level 0.  The processor saves where it was, on the
stack of the TSS when it was at an outer level, and `iret` takes that back; on the way to an outer
level `leave` drops the data segments that may not be used there.

* `Entry`: what code at a gate does before and after the handler: instructions that save and
  restore registers.
* `Pushed m top ws c`: the machine has pushed the words `ws`, one after the other.
* `OnTop c ws`: the words `ws` lie on top of the stack.  `OnTop.popSeg`, `OnTop.popa` and
  `OnTop.leave` say what is taken off a stack that has them. -/

namespace X86

open Bytes Memory

theorem storeDown_append (ws vs : List UInt32) : ∀ (m : Mem) (a : ℕ),
    storeDown m a (ws ++ vs) = storeDown (storeDown m a ws) (a - 4 * ws.length) vs := by
  induction ws with
  | nil => exact fun _ _ => rfl
  | cons w ws ih =>
      intro m a
      have ha : a - 4 - 4 * ws.length = a - 4 * (w :: ws).length := by
        rw [List.length_cons]
        omega
      rw [← ha]
      exact ih (m.store32 (a - 4) w) (a - 4)

/-- The flags that an interrupt gate clears: TF, IF and NT. -/
def GATE_FLAGS : UInt32 := 0x4300

structure Tss where
  esp0 : UInt32
  ss0 : UInt16

/-- Where a gate leads. -/
structure Gate where
  selector : UInt16
  offset : UInt32

/-- The instructions around a handler. -/
inductive Entry where
  | instr (i : Instr)
  | pushSeg (seg : Seg)
  | popSeg (seg : Seg)
  | push (r : Reg)
  | addEsp (n : UInt32)
  | iret
deriving DecidableEq

namespace Cpu

/-- At privilege level 0. -/
def kernel (c : Cpu) : Prop := c.cs &&& 3 = 0

instance (c : Cpu) : Decidable c.kernel := inferInstanceAs (Decidable (_ = _))

/-- The stack that an interrupt uses. -/
def interruptEsp (c : Cpu) (tss : Tss) : UInt32 := if c.kernel then c.esp else tss.esp0

/-- What the processor pushes, in this order, with an error code for some exceptions. -/
def interruptWords (c : Cpu) (code : Option UInt32) : List UInt32 :=
  (if c.kernel then [] else [c.ss.toUInt32, c.esp]) ++
    [c.eflags.word, c.cs.toUInt32, c.eip] ++ code.toList

def interrupt (c : Cpu) (tss : Tss) (gate : Gate) (code : Option UInt32) : Cpu :=
  { (({ c with ss := if c.kernel then c.ss else tss.ss0 }).setReg .esp
      (c.interruptEsp tss)).pushAll (c.interruptWords code) with
    eflags := .ofWord (c.eflags.word &&& ~~~GATE_FLAGS)
    cs := gate.selector
    eip := gate.offset }

/-- `iret`, where `dpl` gives the privilege level of the segment that a selector names.  A data
segment register that names a segment of an inner level is set to the null selector. -/
def leave (dpl : UInt16 → UInt16) (c : Cpu) : Cpu :=
  let r := c.exec .iret
  if r.cs &&& 3 = c.cs &&& 3 then r
  else { r with segs := fun seg => if dpl (r.segs seg) < r.cs &&& 3 then 0 else r.segs seg }

def execEntry (dpl : UInt16 → UInt16) (c : Cpu) : Entry → Cpu
  | .instr i => c.exec i
  | .pushSeg seg => c.push (c.segs seg).toUInt32
  | .popSeg seg =>
      let (w, c) := c.pop
      { c with segs := Function.update c.segs seg w.toUInt16 }
  | .push r => c.push (c.regs r)
  | .addEsp n => c.setReg .esp (c.esp + n)
  | .iret => c.leave dpl

def execEntries (dpl : UInt16 → UInt16) (c : Cpu) (es : List Entry) : Cpu :=
  es.foldl (execEntry dpl) c

theorem execEntries_cons (dpl : UInt16 → UInt16) (c : Cpu) (e : Entry) (es : List Entry) :
    c.execEntries dpl (e :: es) = (c.execEntry dpl e).execEntries dpl es := rfl

theorem execEntries_append (dpl : UInt16 → UInt16) (c : Cpu) (es fs : List Entry) :
    c.execEntries dpl (es ++ fs) = (c.execEntries dpl es).execEntries dpl fs :=
  List.foldl_append

theorem execEntries_nil (dpl : UInt16 → UInt16) (c : Cpu) : c.execEntries dpl [] = c := rfl

/-! ### Words pushed -/

variable {c : Cpu} {w : UInt32} {ws : List UInt32} {d : UInt16 → UInt16}

/-- The words were pushed, in this order, when the stack pointer was `top` and the memory `m`. -/
structure Pushed (m : Mem) (top : ℕ) (ws : List UInt32) (c : Cpu) : Prop where
  mem : c.mem = storeDown m top ws
  esp : c.esp.toNat + 4 * ws.length = top

namespace Pushed

variable {m : Mem} {top : ℕ}

theorem congr (h : Pushed m top ws c) {c' : Cpu} (hmem : c'.mem = c.mem) (hesp : c'.esp = c.esp) :
    Pushed m top ws c' :=
  ⟨hmem.trans h.mem, by rw [hesp]; exact h.esp⟩

theorem pushAll (h : Pushed m top ws c) (vs : List UInt32)
    (hroom : 4 * (ws.length + vs.length) ≤ top) : Pushed m top (ws ++ vs) (c.pushAll vs) := by
  have hesp := h.esp
  have hv : 4 * vs.length ≤ c.esp.toNat := by omega
  obtain ⟨hlow, hmem, -⟩ := pushAll_spec hv
  refine ⟨?_, ?_⟩
  · rw [hmem, h.mem, storeDown_append]
    congr 1
    omega
  · rw [hlow, List.length_append]
    omega

theorem push (h : Pushed m top ws c) (w : UInt32) (hroom : 4 * (ws.length + 1) ≤ top) :
    Pushed m top (ws ++ [w]) (c.push w) :=
  h.pushAll [w] hroom

/-- Bytes below and above the words are as they were. -/
theorem other (h : Pushed m top ws c) {x : ℕ} (hx : x < c.esp.toNat ∨ top ≤ x) :
    c.mem x = m x := by
  have hesp := h.esp
  rw [h.mem]
  exact storeDown_other (by omega) (by omega)

end Pushed

/-- The words were pushed on the stack of the machine `i`, and its registers are as they were. -/
structure Saves (i : Cpu) (top : ℕ) (ws : List UInt32) (c : Cpu) : Prop
    extends Pushed i.mem top ws c where
  regs : ∀ r, r ≠ .esp → c.regs r = i.regs r
  segs : c.segs = i.segs

namespace Saves

variable {i : Cpu} {top : ℕ}

theorem pushAll (h : Saves i top ws c) (vs : List UInt32)
    (hroom : 4 * (ws.length + vs.length) ≤ top) : Saves i top (ws ++ vs) (c.pushAll vs) := by
  have hesp := h.esp
  have hv : 4 * vs.length ≤ c.esp.toNat := by omega
  obtain ⟨-, -, esp, hall⟩ := pushAll_spec hv
  refine ⟨h.toPushed.pushAll vs hroom, fun r hr => ?_, ?_⟩
  · rw [← h.regs r hr, hall]
    exact Function.update_of_ne hr _ _
  · rw [hall]
    exact h.segs

theorem pushSeg (h : Saves i top ws c) (seg : Seg) (hroom : 4 * (ws.length + 1) ≤ top) :
    Saves i top (ws ++ [(i.segs seg).toUInt32]) (c.execEntry d (.pushSeg seg)) := by
  rw [← h.segs]
  exact h.pushAll [(c.segs seg).toUInt32] hroom

theorem pushSegs (segs : List Seg) : ∀ {ws : List UInt32} {c : Cpu}, Saves i top ws c →
    4 * (ws.length + segs.length) ≤ top →
    Saves i top (ws ++ segs.map fun seg => (i.segs seg).toUInt32)
      (c.execEntries d (segs.map .pushSeg)) := by
  induction segs with
  | nil =>
      intro ws c h _
      rw [List.map_nil, List.append_nil]
      exact h
  | cons seg segs ih =>
      intro ws c h hroom
      rw [List.length_cons] at hroom
      have h1 := h.pushSeg (d := d) seg (by omega)
      have hlen : (ws ++ [(i.segs seg).toUInt32]).length = ws.length + 1 := by simp
      have h2 := ih h1 (by omega)
      rw [List.append_assoc] at h2
      exact h2

/-- `pusha` saves the stack pointer as it finds it. -/
theorem pusha (h : Saves i top ws c) (hroom : 4 * (ws.length + 8) ≤ top) :
    Saves i top (ws ++ [i.regs .eax, i.regs .ecx, i.regs .edx, i.regs .ebx, c.esp, i.regs .ebp,
      i.regs .esi, i.regs .edi]) (c.execEntry d (.instr .pusha)) := by
  rw [← h.regs .eax (by decide), ← h.regs .ecx (by decide), ← h.regs .edx (by decide),
    ← h.regs .ebx (by decide), ← h.regs .ebp (by decide), ← h.regs .esi (by decide),
    ← h.regs .edi (by decide)]
  exact h.pushAll _ hroom

end Saves

/-- An interrupt leaves on the stack where it was. -/
theorem saves_interrupt {tss : Tss} {g : Gate} {e : Option UInt32}
    (hroom : 4 * (c.interruptWords e).length ≤ (c.interruptEsp tss).toNat) :
    Saves c (c.interruptEsp tss).toNat (c.interruptWords e) (c.interrupt tss g e) := by
  obtain ⟨x, hx⟩ : ∃ x, x = ({ c with ss := if c.kernel then c.ss else tss.ss0 }).setReg .esp
      (c.interruptEsp tss) := ⟨_, rfl⟩
  have hesp : x.esp = c.interruptEsp tss := by
    rw [hx]
    simp [setReg, Cpu.esp]
  have hnil : Saves c (c.interruptEsp tss).toNat [] x := by
    refine ⟨⟨?_, ?_⟩, fun r hr => ?_, ?_⟩
    · rw [hx]
      rfl
    · rw [hesp]
      rfl
    · rw [hx]
      exact Function.update_of_ne hr _ _
    · rw [hx]
      rfl
  have h := hnil.pushAll (c.interruptWords e) (by simpa using hroom)
  rw [hx] at h
  exact ⟨h.toPushed.congr rfl rfl, h.regs, h.segs⟩

/-! ### Words on top of the stack -/

/-- The words lie on top of the stack, and the stack does not wrap around there. -/
structure OnTop (c : Cpu) (ws : List UInt32) : Prop where
  words : Stacked c.mem c.esp.toNat ws
  fits : c.esp.toNat + 4 * ws.length < 2 ^ 32

theorem Pushed.onTop {m : Mem} {top : ℕ} (h : Pushed m top ws c) (htop : top < 2 ^ 32) :
    OnTop c ws.reverse := by
  have hesp := h.esp
  have hroom : 4 * ws.length ≤ top := by omega
  have hwords := stacked_storeDown (m := m) hroom
  rw [← h.mem, show top - 4 * ws.length = c.esp.toNat by omega] at hwords
  refine ⟨hwords, ?_⟩
  rw [List.length_reverse]
  omega

namespace OnTop

variable {vals : Seg → UInt16}

theorem next (h : OnTop c (w :: ws)) : (c.esp + 4).toNat = c.esp.toNat + 4 := by
  have hfits := h.fits
  rw [List.length_cons] at hfits
  exact toNat_add_four (by omega)

theorem toNat_add (h : OnTop c ws) {n : UInt32} (hn : n.toNat ≤ 4 * ws.length) :
    (c.esp + n).toNat = c.esp.toNat + n.toNat := by
  have hfits := h.fits
  rw [UInt32.toNat_add]
  exact Nat.mod_eq_of_lt (by omega)

/-- Without its first word. -/
theorem tail (h : OnTop c (w :: ws)) {c' : Cpu} (hmem : c'.mem = c.mem)
    (hesp : c'.esp = c.esp + 4) : OnTop c' ws := by
  have hfits := h.fits
  rw [List.length_cons] at hfits
  refine ⟨?_, ?_⟩
  · rw [hmem, hesp, h.next]
    exact h.words.2
  · rw [hesp, h.next]
    omega

/-- What there is after a word has been taken off. -/
theorem drop (h : OnTop c (w :: ws)) : OnTop (c.setReg .esp (c.esp + 4)) ws :=
  h.tail rfl (by simp [setReg, esp])

theorem popSeg (h : OnTop c (w :: ws)) (seg : Seg) : c.execEntry d (.popSeg seg) =
    { c.setReg .esp (c.esp + 4) with segs := Function.update c.segs seg w.toUInt16 } := by
  simp only [execEntry, pop_spec h.words]
  rfl

theorem popSegs (segs : List Seg) : ∀ {c : Cpu}, OnTop c
    ((segs.map fun seg => (vals seg).toUInt32) ++ ws) →
    OnTop (c.execEntries d (segs.map .popSeg)) ws ∧
      ∃ esp, esp.toNat = c.esp.toNat + 4 * segs.length ∧
        c.execEntries d (segs.map .popSeg) = { c.setReg .esp esp with
          segs := fun seg => if seg ∈ segs then vals seg else c.segs seg } := by
  induction segs with
  | nil =>
      intro c h
      refine ⟨h, c.esp, rfl, ?_⟩
      simp [execEntries, setReg, esp]
  | cons seg segs ih =>
      intro c h
      have hval : (vals seg).toUInt32.toUInt16 = vals seg := by simp
      obtain ⟨x, hx⟩ : ∃ x, x = c.execEntry d (.popSeg seg) := ⟨_, rfl⟩
      have hpop := h.popSeg (d := d) seg
      rw [← hx, hval] at hpop
      have hesp : x.esp = c.esp + 4 := by
        rw [hpop]
        simp [setReg, Cpu.esp]
      obtain ⟨htop, esp, he, hall⟩ := ih (c := x) (h.tail (by rw [hpop]; rfl) hesp)
      rw [List.map_cons, execEntries_cons, ← hx, List.length_cons]
      refine ⟨htop, esp, ?_, ?_⟩
      · rw [he, hesp, h.next]
        omega
      · rw [hall, hpop]
        simp only [setReg, Function.update_idem]
        congr 1
        funext s
        by_cases hs : s ∈ segs
        · simp [hs]
        · by_cases hss : s = seg
          · subst hss
            simp [hs]
          · simp [hs, hss]

theorem popa {edi esi ebp skip ebx edx ecx eax : UInt32}
    (h : OnTop c (edi :: esi :: ebp :: skip :: ebx :: edx :: ecx :: eax :: ws)) :
    c.execEntry d (.instr .popa) =
      { c with regs := frameRegs edi esi ebp (c.esp + 32) ebx edx ecx eax } ∧
    OnTop { c with regs := frameRegs edi esi ebp (c.esp + 32) ebx edx ecx eax } ws := by
  have hfits := h.fits
  simp only [List.length_cons] at hfits
  have h32 : (c.esp + 32).toNat = c.esp.toNat + 32 := by
    rw [UInt32.toNat_add]
    exact Nat.mod_eq_of_lt (show c.esp.toNat + 32 < 2 ^ 32 by omega)
  refine ⟨popa_spec h.words (by omega), ?_, ?_⟩
  · show Stacked c.mem (c.esp + 32).toNat ws
    rw [h32]
    have hws : edi :: esi :: ebp :: skip :: ebx :: edx :: ecx :: eax :: ws =
        [edi, esi, ebp, skip, ebx, edx, ecx, eax] ++ ws := rfl
    have hwords := h.words
    rw [hws, stacked_append] at hwords
    exact hwords.2
  · show (c.esp + 32).toNat + 4 * ws.length < 2 ^ 32
    rw [h32]
    omega

/-- `iret` within the privilege level. -/
theorem iret_inner {eip cs flags : UInt32} (h : OnTop c (eip :: cs :: flags :: ws))
    (hcs : cs.toUInt16 &&& 3 = c.cs &&& 3) : c.exec .iret = { c.setReg .esp (c.esp + 12) with
      eip := eip
      cs := cs.toUInt16
      eflags := .ofWord flags } := by
  have h1 := h.drop
  have h2 := h1.drop
  have h12 : c.regs .esp + 4 + 4 + 4 = c.regs .esp + 12 := by
    simp only [UInt32.add_assoc]
    rfl
  simp only [exec, iret, pop_spec h.words, pop_spec h1.words, pop_spec h2.words]
  rw [if_pos (by exact hcs)]
  simp only [setReg, esp, Function.update_self, Function.update_idem, h12]

end OnTop

/-! ### Returns -/

/-- What an interrupt pushed, from the top of the stack on. -/
def returnWords (c : Cpu) : List UInt32 :=
  [c.eip, c.cs.toUInt32, c.eflags.word] ++ if c.kernel then [] else [c.esp, c.ss.toUInt32]

/-- `iret` takes back what an interrupt of the machine `i` pushed. -/
theorem OnTop.leave {i : Cpu} (h : OnTop c i.returnWords) (hc : c.kernel)
    (htop : i.kernel → c.esp + 12 = i.esp) :
    (c.leave d).regs = Function.update c.regs .esp i.esp ∧ (c.leave d).eflags = i.eflags ∧
      (c.leave d).eip = i.eip ∧ (c.leave d).cs = i.cs ∧ (c.leave d).mem = c.mem ∧
      ((c.leave d).ss = if i.kernel then c.ss else i.ss) ∧
      (c.leave d).segs = fun seg =>
        if ¬ i.kernel ∧ d (c.segs seg) < i.cs &&& 3 then 0 else c.segs seg := by
  have hcs : i.cs.toUInt32.toUInt16 = i.cs := by simp
  have hss : i.ss.toUInt32.toUInt16 = i.ss := by simp
  by_cases hi : i.kernel
  · have hsame : i.cs &&& 3 = c.cs &&& 3 := hi.trans hc.symm
    rw [returnWords, if_pos hi, List.append_nil] at h
    have hiret := h.iret_inner (by rw [hcs]; exact hsame)
    have hleave : c.leave d = c.exec .iret := by
      unfold Cpu.leave
      rw [hiret, hcs, if_pos hsame]
    rw [hleave, hiret, htop hi, hcs, Eflags.ofWord_word]
    refine ⟨rfl, rfl, rfl, rfl, rfl, ?_, ?_⟩
    · rw [if_pos hi]
      rfl
    · funext seg
      rw [if_neg fun hn => hn.1 hi]
      rfl
  · have hother : i.cs &&& 3 ≠ c.cs &&& 3 := fun he => hi (he.trans hc)
    rw [returnWords, if_neg hi] at h
    have hfits := h.fits
    have hiret := iret_outer_spec h.words hfits (by rw [hcs]; exact hother)
    rw [Cpu.leave, hiret, hcs, hss, Eflags.ofWord_word]
    dsimp only
    rw [if_neg hother]
    refine ⟨rfl, rfl, rfl, rfl, rfl, ?_, ?_⟩
    · rw [if_neg hi]
    · funext seg
      simp only [hi, not_false_eq_true, true_and]
      rfl

end Cpu

end X86
