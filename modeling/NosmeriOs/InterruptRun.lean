import NosmeriOs.InterruptStubs

/-! # Interrupts of running tasks

The running task is interrupted, its handler runs, and other tasks may run in between.

* `Served`: an interrupt of the running task, up to the return of its handler.  Every step in
  between is a step of `ContextSwitch`; `Serve.keeps` says that none of them touches the frame.
* `irq_returns`, `isr80_returns`, `isr14_returns`: what the task finds after the interrupt.
  `irq0` and `irq1` do not save the data segments; `irq_segs_iff` says when they are lost. -/

namespace NosmeriOs.Interrupts

open Bytes Memory X86 ContextSwitch

/-! ### While a handler runs -/

/-- A step while the task `t` is in a handler that was called with the stack pointer at `low`.
The handler works below that on its stack; above, it leaves alone what is not lent to it. -/
structure Serve (sym : Symbols) (t : UInt32) (low : ℕ) (keep : ℕ → Prop) (w w' : World) :
    Prop where
  step : Step sym w w'
  alive : ∃ s, w'.stackOf t = some s
  below : w.current = t → w.cpu.esp.toNat ≤ low
  work : w.current = t → w' = { w with cpu := w'.cpu } →
    ∀ x, keep x → w'.cpu.mem x = w.cpu.mem x

inductive Serves (sym : Symbols) (t : UInt32) (low : ℕ) (keep : ℕ → Prop) (w : World) :
    World → Prop
  | nil : Serves sym t low keep w w
  | snoc {w₁ w₂ : World} : Serves sym t low keep w w₁ → Serve sym t low keep w₁ w₂ →
      Serves sym t low keep w w₂

section serve

variable {sym : Symbols} {t : UInt32} {low : ℕ} {keep : ℕ → Prop} {w w' : World} {s : Stack}

/-- A new task's stack is laid out away from the other stacks. -/
theorem added_other {m : Mem} {t' esp : UInt32} {s' : Stack} {ws : List UInt32}
    {stackOf : UInt32 → Option Stack} (hapart : Apart (Function.update stackOf t' (some s')))
    (hs : stackOf t = some s) (hne : t ≠ t') (hroom : s'.lo + 4 * ws.length ≤ s'.hi) {x : ℕ}
    (hlo : s.lo ≤ x) (hhi : x < s.hi) : setEsp (storeDown m s'.hi ws) t' esp x = m x := by
  have ht : Function.update stackOf t' (some s') t = some s := by
    rw [Function.update_of_ne hne, hs]
  have ht' : Function.update stackOf t' (some s') t' = some s' := Function.update_self ..
  have hstack := hapart.stack _ _ _ _ ht ht' hne
  have hobj := hapart.object _ _ _ _ ht' ht
  refine (setEsp_other _ _ _ (by omega)).trans (storeDown_other (by omega) (by omega))

/-- A switch writes on the stack of the caller, below its stack pointer, and in its object. -/
theorem switch_other (hok : w.Ok sym) {next ret : UInt32} (hcall : w.Calls next)
    (hs : w.stackOf t = some s) (hbelow : w.current = t → w.cpu.esp.toNat ≤ low) {x : ℕ}
    (hlow : low ≤ x) (hlo : s.lo ≤ x) (hhi : x < s.hi) :
    (w.switch sym next ret).cpu.mem x = w.cpu.mem x := by
  obtain ⟨s', hs', hroom, hargs⟩ := hcall.room
  obtain ⟨hbound, hobj⟩ := hok.apart.bound _ _ hs'
  obtain ⟨esp, hesp, -, -, -, hmem⟩ := save_spec sym sym.switchContext ret hcall.prevArg
    hcall.nextArg (by omega) (by omega) hobj
  obtain ⟨hedx, hcs, hsus⟩ := hok.saved ret sym.switchContext hcall
  obtain ⟨sn, hsn⟩ := hcall.alive
  obtain ⟨_, _, hnext⟩ := hsus next sn hsn
  have hkernel := hcall.kernel
  rw [← hcs] at hkernel
  have hcpu : (w.switch sym next ret).cpu =
      ((w.cpu.call sym.switchContext ret).execAll saveContext).execAll restoreContext :=
    List.foldl_append
  rw [hcpu, (restored hedx (hok.apart.bound _ _ hsn) hkernel hnext).1, hmem]
  have hobject := hok.apart.object _ _ _ _ hs' hs
  refine (Mem.store32_other _ _ (by omega)).trans (storeDown_other ?_ ?_)
  · rw [List.length_reverse]
    exact (show 4 * 10 ≤ _ by omega)
  · rw [List.length_reverse, show (savedWords sym (w.cpu.esp - 4 - 4)
      (.call w.cpu.regs w.cpu.eflags ret)).length = 10 from rfl]
    by_cases hcur : w.current = t
    · have hb := hbelow hcur
      omega
    · have hstack := hok.apart.stack _ _ _ _ hs hs' (Ne.symm hcur)
      omega

/-- No step touches the frame of the handler. -/
theorem Serve.keeps (hok : w.Ok sym) (h : Serve sym t low keep w w') (hs : w.stackOf t = some s)
    (hkeep : ∀ x, keep x → low ≤ x ∧ s.lo ≤ x ∧ x < s.hi) :
    w'.stackOf t = some s ∧ ∀ x, keep x → w'.cpu.mem x = w.cpu.mem x := by
  obtain ⟨hstep, ⟨s₂, halive⟩, hbelow, hwork⟩ := h
  cases hstep with
  | work c hown =>
      refine ⟨hs, fun x hx => ?_⟩
      by_cases hcur : w.current = t
      · exact hwork hcur rfl x hx
      · exact hown t x (Ne.symm hcur) ⟨s, hs, Or.inl (hkeep x hx).2⟩
  | createTask t' stackMem entryPoint hnew hapart =>
      have hne : t ≠ t' := by
        rintro rfl
        rw [hnew] at hs
        cases hs
      obtain ⟨htop, -⟩ := stackTop_toNat (hapart.bound t' _ (Function.update_self ..)).1
      refine ⟨(Function.update_of_ne hne _ _).trans hs, fun x hx => ?_⟩
      obtain ⟨-, hlo, hhi⟩ := hkeep x hx
      show createTask sym w.cpu.mem t' stackMem entryPoint x = _
      rw [createTask_eq, htop]
      apply added_other hapart hs hne _ hlo hhi
      simp [savedWords, kernelStack, Tasks.TASK_STACK_SIZE]
  | createUserTask t' kernelStackMem entryPoint hnew hapart =>
      have hne : t ≠ t' := by
        rintro rfl
        rw [hnew] at hs
        cases hs
      obtain ⟨htop, -⟩ := stackTop_toNat (hapart.bound t' _ (Function.update_self ..)).1
      refine ⟨(Function.update_of_ne hne _ _).trans hs, fun x hx => ?_⟩
      obtain ⟨-, hlo, hhi⟩ := hkeep x hx
      show createUserTask sym w.cpu.mem t' kernelStackMem entryPoint x = _
      rw [createUserTask_eq, htop]
      apply added_other hapart hs hne _ hlo hhi
      simp [savedWords, kernelStack, Tasks.TASK_STACK_SIZE]
  | switch next ret hcall =>
      refine ⟨hs, fun x hx => ?_⟩
      obtain ⟨hlow, hlo, hhi⟩ := hkeep x hx
      exact switch_other hok hcall hs hbelow hlow hlo hhi
  | kill t' hne =>
      have htt : t ≠ t' := by
        rintro rfl
        have hnone : (w.remove t).stackOf t = none := Function.update_self ..
        rw [hnone] at halive
        cases halive
      exact ⟨(Function.update_of_ne htt _ _).trans hs, fun _ _ => rfl⟩

theorem Serves.run (h : Serves sym t low keep w w') : Run sym w w' := by
  induction h with
  | nil => exact .nil
  | snoc _ hserve ih => exact .snoc ih hserve.step

/-- However many tasks run in between. -/
theorem Serves.keeps (hok : w.Ok sym) (h : Serves sym t low keep w w')
    (hs : w.stackOf t = some s) (hkeep : ∀ x, keep x → low ≤ x ∧ s.lo ≤ x ∧ x < s.hi) :
    w'.stackOf t = some s ∧ ∀ x, keep x → w'.cpu.mem x = w.cpu.mem x := by
  induction h with
  | nil => exact ⟨hs, fun _ _ => rfl⟩
  | snoc hrun hserve ih =>
      obtain ⟨hs₁, hm₁⟩ := ih
      obtain ⟨hs₂, hm₂⟩ := hserve.keeps (hok.run hrun.run) hs₁ hkeep
      exact ⟨hs₂, fun x hx => (hm₂ x hx).trans (hm₁ x hx)⟩

end serve

/-! ### Interrupts -/

/-- The tables as they were before `init_gdt` and `init_idt`, and the addresses these enter. -/
structure Boot where
  stubs : Stubs
  idt : UInt8 → IdtEntry
  gdt : ℕ → GdtEntry
  tss : UInt32

namespace Boot

def gate (b : Boot) (n : UInt8) : Gate := (initIdt b.stubs b.idt n).gate

def dpl (b : Boot) : UInt16 → UInt16 := Interrupts.dpl (initGdt b.tss b.gdt).2

/-- With the stack pointer from `set_kernel_stack`. -/
def tssFor (b : Boot) (stackTop : UInt32) : Tss := setKernelStack (initGdt b.tss b.gdt).1 stackTop

theorem dpl_kernelData (b : Boot) : b.dpl 0x10 = 0 := by
  have hindex : ((0x10 : UInt16) >>> 3).toNat = 2 := by decide
  rw [dpl, Interrupts.dpl, hindex]
  simp [initGdt, initTss, setGdtGate]
  decide

theorem dpl_userData (b : Boot) : b.dpl 0x23 = 3 := by
  have hindex : ((0x23 : UInt16) >>> 3).toNat = 4 := by decide
  rw [dpl, Interrupts.dpl, hindex]
  simp [initGdt, initTss, setGdtGate]
  decide

end Boot

/-- The machine when the handler is called. -/
def entered (b : Boot) (stackTop : UInt32) (n : UInt8) (code : Option UInt32) (stub : Stub)
    (i : Cpu) : Cpu :=
  (i.interrupt (b.tssFor stackTop) (b.gate n) code).execEntries b.dpl stub.enter

/-- What the handler of the stub leaves alone in its frame. -/
def Kept (top low : ℕ) (stub : Stub) (x : ℕ) : Prop :=
  low ≤ x ∧ x < top ∧ ¬ stub.lends (x - low)

/-- The running task is interrupted, on its own kernel stack, and the handler returns. -/
structure Served (sym : Symbols) (b : Boot) (stackTop : UInt32) (n : UInt8) (code : Option UInt32)
    (stub : Stub) (w w' : World) : Prop where
  room : ∃ s, w.stackOf w.current = some s ∧
    s.lo + 76 ≤ (w.cpu.interruptEsp (b.tssFor stackTop)).toNat ∧
    (w.cpu.interruptEsp (b.tssFor stackTop)).toNat ≤ s.hi
  run : Serves sym w.current (entered b stackTop n code stub w.cpu).esp.toNat
    (Kept (w.cpu.interruptEsp (b.tssFor stackTop)).toNat
      (entered b stackTop n code stub w.cpu).esp.toNat stub)
    { w with cpu := entered b stackTop n code stub w.cpu } w'
  current : w'.current = w.current
  esp : w'.cpu.esp = (entered b stackTop n code stub w.cpu).esp
  kernel : w'.cpu.kernel

theorem run_trans {sym : Symbols} {w w₁ w₂ : World} (h : Run sym w w₁) (h' : Run sym w₁ w₂) :
    Run sym w w₂ := by
  induction h' with
  | nil => exact h
  | snoc _ hstep ih => exact .snoc ih hstep

section served

variable {sym : Symbols} {b : Boot} {stackTop : UInt32} {n : UInt8} {code : Option UInt32}
  {stub : Stub} {w₀ w w' : World}

theorem Served.fits (h : Served sym b stackTop n code stub w w') :
    Fits w.cpu (b.tssFor stackTop) := by
  obtain ⟨s, -, hlo, -⟩ := h.room
  unfold Fits
  omega

/-- Entry touches no other task's bytes, and the frame is there when the handler returns. -/
theorem Served.frame (hok : w.Ok sym) (h : Served sym b stackTop n code stub w w')
    {ws : List UInt32} (hp : Cpu.Pushed w.cpu.mem (w.cpu.interruptEsp (b.tssFor stackTop)).toNat ws
      (entered b stackTop n code stub w.cpu)) (hlen : ws.length ≤ 19) :
    Run sym w w' ∧ ∀ x, Kept (w.cpu.interruptEsp (b.tssFor stackTop)).toNat
      (entered b stackTop n code stub w.cpu).esp.toNat stub x →
      w'.cpu.mem x = (entered b stackTop n code stub w.cpu).mem x := by
  obtain ⟨s, hs, hlo, hhi⟩ := h.room
  have hesp := hp.esp
  have hstep : Step sym w { w with cpu := entered b stackTop n code stub w.cpu } := by
    refine .work _ fun t x ht hx => hp.other ?_
    obtain ⟨s', hs', hx⟩ := hx
    have hstack := hok.apart.stack _ _ _ _ hs' hs ht
    have hobj := hok.apart.object _ _ _ _ hs' hs
    omega
  have hkeep : ∀ x, Kept (w.cpu.interruptEsp (b.tssFor stackTop)).toNat
      (entered b stackTop n code stub w.cpu).esp.toNat stub x →
      (entered b stackTop n code stub w.cpu).esp.toNat ≤ x ∧ s.lo ≤ x ∧ x < s.hi := by
    intro x hx
    obtain ⟨hlow, htop, -⟩ := hx
    omega
  exact ⟨run_trans (.snoc .nil hstep) h.run.run, (h.run.keeps (hok.step hstep) hs hkeep).2⟩

/-- The frame of `irq0` and `irq1`, when the handler returns. -/
theorem Served.irq (hok : w.Ok sym) (h : Served sym b stackTop n none irq0 w w') :
    Run sym w w' ∧
    ∃ skip, Cpu.OnTop w'.cpu (popaWords w.cpu skip (w.cpu.regs .eax) ++ w.cpu.returnWords) ∧
      (w.cpu.kernel → w'.cpu.esp.toNat + 44 = w.cpu.esp.toNat) := by
  obtain ⟨skip, hp⟩ := enter_irq (g := b.gate n) (d := b.dpl) h.fits
  have hlen : (w.cpu.interruptWords none ++ pushaWords w.cpu skip).length =
      w.cpu.returnWords.length + 8 := by
    by_cases hk : w.cpu.kernel <;>
      simp [Cpu.interruptWords, Cpu.returnWords, pushaWords, hk]
  have hret : w.cpu.returnWords.length ≤ 5 := by
    by_cases hk : w.cpu.kernel <;> simp [Cpu.returnWords, hk]
  have hwords : (w.cpu.interruptWords none ++ pushaWords w.cpu skip).reverse =
      popaWords w.cpu skip (w.cpu.regs .eax) ++ w.cpu.returnWords := by
    by_cases hk : w.cpu.kernel <;>
      simp [Cpu.interruptWords, Cpu.returnWords, pushaWords, popaWords, hk]
  obtain ⟨hserved, hkept⟩ := h.frame hok hp (by omega)
  have htop := hp.onTop (UInt32.toNat_lt _)
  have hesp := hp.esp
  refine ⟨hserved, skip, ⟨?_, ?_⟩, fun hk => ?_⟩
  · rw [h.esp, ← hwords]
    refine htop.words.congr fun x h1 h2 => hkept x ⟨h1, ?_, not_false⟩
    rw [List.length_reverse] at h2
    exact h2.trans_eq hp.esp
  · rw [h.esp, ← hwords]
    exact htop.fits
  · rw [h.esp]
    have hk' : w.cpu.interruptEsp (b.tssFor stackTop) = w.cpu.esp := if_pos hk
    have hr : w.cpu.returnWords.length = 3 := by simp [Cpu.returnWords, hk]
    rw [hlen, hr, hk'] at hesp
    exact hesp

/-- The words of a frame on which the handler has used its argument and one of the others. -/
theorem stacked_lent {m m' : Mem} {low : ℕ} {arg eax : UInt32} {vs ws : List UInt32}
    (h : Stacked m low (arg :: (vs ++ eax :: ws)))
    (hm : ∀ x, low ≤ x → x < low + 4 * (vs.length + ws.length + 2) →
      ¬ (x - low < 4 ∨ 4 + 4 * vs.length ≤ x - low ∧ x - low < 4 + 4 * vs.length + 4) →
      m' x = m x) :
    Stacked m' low
      (m'.load32 low :: (vs ++ m'.load32 (low + 4 + 4 * vs.length) :: ws)) := by
  obtain ⟨hvs, -, hws⟩ := (stacked_append.1 h.2).imp_right id
  refine ⟨rfl, stacked_append.2 ⟨hvs.congr fun x h1 h2 => ?_, rfl, hws.congr fun x h1 h2 => ?_⟩⟩
  · exact hm x (by omega) (by omega) (by omega)
  · exact hm x (by omega) (by omega) (by omega)

theorem length_returnWords (i : Cpu) :
    i.returnWords.length = if i.kernel then 3 else 5 := by
  by_cases hk : i.kernel <;> simp [Cpu.returnWords, hk]

theorem reverse_interruptWords (i : Cpu) (code : Option UInt32) :
    (i.interruptWords code).reverse = code.toList ++ i.returnWords := by
  by_cases hk : i.kernel <;> cases code <;> simp [Cpu.interruptWords, Cpu.returnWords, hk]

/-- The frame of `isr80`; the handler has left a word in the place of `eax`. -/
theorem Served.isr80 (hok : w.Ok sym) (h : Served sym b stackTop n none isr80 w w') :
    Run sym w w' ∧ ∃ skip arg, Cpu.OnTop w'.cpu (arg :: ((segWords w.cpu).reverse ++
        (popaWords w.cpu skip (w'.cpu.mem.load32 (w'.cpu.esp.toNat + 4 + REGISTERS_EAX)) ++
          w.cpu.returnWords))) ∧
      (w.cpu.kernel → w'.cpu.esp.toNat + 64 = w.cpu.esp.toNat) := by
  obtain ⟨skip, arg, hp⟩ := enter_isr80 (g := b.gate n) (d := b.dpl) h.fits
  generalize hv : (segWords w.cpu).reverse ++ [w.cpu.regs .edi, w.cpu.regs .esi, w.cpu.regs .ebp,
    skip, w.cpu.regs .ebx, w.cpu.regs .edx, w.cpu.regs .ecx] = vs
  have hvs : vs.length = 11 := by
    rw [← hv]
    rfl
  have hwords : (w.cpu.interruptWords none ++ pushaWords w.cpu skip ++ segWords w.cpu ++
      [arg]).reverse = arg :: (vs ++ w.cpu.regs .eax :: w.cpu.returnWords) := by
    rw [← hv]
    simp [reverse_interruptWords, pushaWords]
  have hframe : ∀ eax, vs ++ eax :: w.cpu.returnWords = (segWords w.cpu).reverse ++
      (popaWords w.cpu skip eax ++ w.cpu.returnWords) := by
    intro eax
    rw [← hv]
    simp [popaWords]
  have hret := length_returnWords w.cpu
  have hlen : (w.cpu.interruptWords none ++ pushaWords w.cpu skip ++ segWords w.cpu ++
      [arg]).length = w.cpu.returnWords.length + 13 := by
    rw [← List.length_reverse, hwords, List.length_cons, List.length_append, List.length_cons, hvs]
    ring
  have hle : w.cpu.returnWords.length ≤ 5 := by
    rw [hret]
    split <;> omega
  obtain ⟨hserved, hkept⟩ := h.frame hok hp (by omega)
  have he := h.esp
  rw [entered] at he
  have htop := hp.onTop (UInt32.toNat_lt _)
  have hesp := hp.esp
  rw [hlen] at hesp
  rw [hwords] at htop
  have hlent : Stacked w'.cpu.mem _ _ := stacked_lent htop.words fun x h1 h2 h3 => by
    refine hkept x ⟨h1, ?_, ?_⟩
    · omega
    · rw [hvs] at h3
      exact h3
  rw [hframe, hvs, ← he] at hlent
  refine ⟨hserved, skip, _, ⟨hlent, ?_⟩, fun hk => ?_⟩
  · have hfits := htop.fits
    rw [← he] at hfits
    rw [← hframe]
    simpa using hfits
  · have hk' : w.cpu.interruptEsp (b.tssFor stackTop) = w.cpu.esp := if_pos hk
    rw [hret, if_pos hk, hk', ← he] at hesp
    exact hesp

/-- The frame of `isr14`; the handler had the word on top as its argument. -/
theorem Served.isr14 {error : UInt32} (hok : w.Ok sym)
    (h : Served sym b stackTop n (some error) isr14 w w') :
    Run sym w w' ∧ ∃ skip arg, Cpu.OnTop w'.cpu (arg :: ((segWords w.cpu).reverse ++
        (popaWords w.cpu skip (w.cpu.regs .eax) ++ error :: w.cpu.returnWords))) ∧
      (w.cpu.kernel → w'.cpu.esp.toNat + 68 = w.cpu.esp.toNat) := by
  obtain ⟨skip, arg, hp⟩ := enter_isr14 (g := b.gate n) (e := some error) (d := b.dpl) h.fits
  generalize hv : (segWords w.cpu).reverse ++
    (popaWords w.cpu skip (w.cpu.regs .eax) ++ error :: w.cpu.returnWords) = vs
  have hwords : (w.cpu.interruptWords (some error) ++ pushaWords w.cpu skip ++ segWords w.cpu ++
      [arg]).reverse = arg :: vs := by
    rw [← hv]
    simp [reverse_interruptWords, pushaWords, popaWords]
  have hret := length_returnWords w.cpu
  have hvs : vs.length = w.cpu.returnWords.length + 13 := by
    rw [← hv]
    simp [segWords, popaWords]
  have hlen : (w.cpu.interruptWords (some error) ++ pushaWords w.cpu skip ++ segWords w.cpu ++
      [arg]).length = w.cpu.returnWords.length + 14 := by
    rw [← List.length_reverse, hwords, List.length_cons, hvs]
  have hle : w.cpu.returnWords.length ≤ 5 := by
    rw [hret]
    split <;> omega
  obtain ⟨hserved, hkept⟩ := h.frame hok hp (by omega)
  have he := h.esp
  rw [entered] at he
  have htop := hp.onTop (UInt32.toNat_lt _)
  have hesp := hp.esp
  rw [hlen] at hesp
  rw [hwords] at htop
  have hfits := htop.fits
  have hargs : Stacked w'.cpu.mem _ _ := htop.words.2.congr fun x h1 h2 => by
    exact hkept x ⟨Nat.le_of_add_right_le h1, by omega, Nat.not_lt.2 (Nat.le_sub_of_add_le' h1)⟩
  rw [← he, ← hv] at hargs hfits
  refine ⟨hserved, skip, w'.cpu.mem.load32 w'.cpu.esp.toNat, ⟨⟨rfl, hargs⟩, ?_⟩, fun hk => ?_⟩
  · simpa using hfits
  · have hk' : w.cpu.interruptEsp (b.tssFor stackTop) = w.cpu.esp := if_pos hk
    rw [hret, if_pos hk, hk', ← he] at hesp
    exact hesp

end served

/-! ### A program that is interrupted -/

/-- A data segment register holds no selector of an inner segment. -/
def SegsOk (b : Boot) (c : Cpu) : Prop :=
  ∀ seg, c.segs seg = 0 ∨ c.cs &&& 3 ≤ b.dpl (c.segs seg)

/-- A program whose kernel stack is at `0x2000`. -/
def userWorld : World :=
  { kernelWorld with
    cpu := { kernelWorld.cpu with
      eip := 0x400010
      cs := 0x1B
      ss := 0x23
      segs := fun _ => 0x23 } }

theorem userWorld_start : userWorld.Start := kernelWorld_start

def userBoot : Boot where
  stubs := ⟨0x100000, 0x100010, 0x100020, 0x100030, 0x100040, 0x100050⟩
  idt _ := ⟨0, 0, 0, 0, 0⟩
  gdt _ := ⟨0, 0, 0, 0, 0, 0⟩
  tss := 0x110000

theorem cs_pushAll (ws : List UInt32) : ∀ c : Cpu, (c.pushAll ws).cs = c.cs := by
  induction ws with
  | nil => exact fun _ => rfl
  | cons w ws ih => exact fun c => ih (c.push w)

theorem cs_execEntries (dpl : UInt16 → UInt16) (es : List Entry)
    (hes : ∀ e ∈ es, e ≠ .iret ∧ e ≠ .instr .iret) :
    ∀ c : Cpu, (c.execEntries dpl es).cs = c.cs := by
  induction es with
  | nil => exact fun _ => rfl
  | cons e es ih =>
      intro c
      rw [Cpu.execEntries_cons, ih fun e he => hes e (List.mem_cons_of_mem _ he)]
      obtain ⟨h1, h2⟩ := hes e List.mem_cons_self
      cases e with
      | instr i =>
          cases i with
          | pusha => exact cs_pushAll _ c
          | iret => exact absurd rfl h2
          | _ => rfl
      | iret => exact absurd rfl h1
      | _ => rfl

/-- The handlers run with the code segment of the kernel. -/
theorem entered_kernel (b : Boot) (stackTop : UInt32) (code : Option UInt32) (i : Cpu)
    {n : UInt8} {stub : Stub}
    (h : (n, stub) ∈ [(14, isr14), (32, irq0), (33, irq1), (0x80, isr80)]) :
    (entered b stackTop n code stub i).kernel := by
  have hentered : (b.gate n).selector = 0x08 →
      (∀ e ∈ stub.enter, e ≠ .iret ∧ e ≠ .instr .iret) →
      (entered b stackTop n code stub i).kernel := by
    intro hsel hes
    rw [entered, Cpu.kernel, cs_execEntries _ _ hes]
    show (b.gate n).selector &&& 3 = 0
    rw [hsel]
    decide
  simp only [List.mem_cons, Prod.mk.injEq, List.not_mem_nil, or_false] at h
  rcases h with ⟨rfl, rfl⟩ | ⟨rfl, rfl⟩ | ⟨rfl, rfl⟩ | ⟨rfl, rfl⟩
  · exact hentered rfl (by decide)
  · exact hentered rfl (by decide)
  · exact hentered rfl (by decide)
  · exact hentered rfl (by decide)

/-- The handler returns with the kernel's data segments. -/
def servedWorld (n : UInt8) (code : Option UInt32) (stub : Stub) : World :=
  { userWorld with
    cpu := { entered userBoot 0x2400 n code stub userWorld.cpu with segs := fun _ => 0x10 } }

theorem served_user {n : UInt8} {stub : Stub} (code : Option UInt32)
    (h : (n, stub) ∈ [(14, isr14), (32, irq0), (33, irq1), (0x80, isr80)]) :
    Served symbols userBoot 0x2400 n code stub userWorld (servedWorld n code stub) where
  room := ⟨_, kernelWorld_alive, by decide, by decide⟩
  run := .snoc .nil {
    step := .work _ fun _ _ _ _ => rfl
    alive := ⟨_, kernelWorld_alive⟩
    below := fun _ => le_rfl
    work := fun _ _ _ _ => rfl }
  current := rfl
  esp := rfl
  kernel := entered_kernel userBoot 0x2400 code userWorld.cpu h

theorem userWorld_segs : SegsOk userBoot userWorld.cpu := by
  intro seg
  refine Or.inr ?_
  show (0x1B : UInt16) &&& 3 ≤ userBoot.dpl 0x23
  rw [userBoot.dpl_userData]
  decide

/-! ### What the interrupted task finds -/

/-- A stub that leaves the memory as the handler left it is work of the task. -/
theorem run_returned {sym : Symbols} {w₀ w w' : World} (hrun : Run sym w₀ w) (h : Run sym w w')
    {c : Cpu} (hc : c.mem = w'.cpu.mem) : Run sym w₀ { w' with cpu := c } :=
  .snoc (run_trans hrun h) (.work c fun _ _ _ _ => by rw [hc])

section returns

variable {sym : Symbols} {b : Boot} {stackTop : UInt32} {n : UInt8} {stub : Stub} {w w' : World}

theorem Served.irq_back (hok : w.Ok sym) (hirq : (n, stub) ∈ [(32, irq0), (33, irq1)])
    (h : Served sym b stackTop n none stub w w') : Run sym w w' ∧
      Back b.dpl w.cpu (w.cpu.regs .eax) w'.cpu.segs (w'.cpu.execEntries b.dpl stub.exit) ∧
      (w'.cpu.execEntries b.dpl stub.exit).mem = w'.cpu.mem := by
  have hstub : stub = irq0 := by
    simp only [List.mem_cons, Prod.mk.injEq, List.not_mem_nil, or_false] at hirq
    rcases hirq with ⟨-, rfl⟩ | ⟨-, rfl⟩
    · rfl
    · rfl
  subst hstub
  obtain ⟨hserved, skip, htop, hesp⟩ := h.irq hok
  exact ⟨hserved, exit_irq htop h.kernel hesp⟩

/-- Segments that were not inner ones stay on the way out. -/
theorem Back.segs_eq {i c : Cpu} {eax : UInt32} (h : Back b.dpl i eax i.segs c)
    (hsegs : SegsOk b i) : c.segs = i.segs := by
  rw [h.segs]
  funext seg
  rcases hsegs seg with hz | hle
  · rw [hz]
    split
    · rfl
    · rfl
  · rw [if_neg fun hin => absurd hin.2 (UInt16.not_lt.2 hle)]

end returns

/-- **The timer and the keyboard interrupt give a task its registers back.**  Whatever tasks run
before the handler returns, the task goes on where it was, at its privilege level and on its stack,
with its flags and general registers.  The data segments are those of the machine on which the
handler returned; on the way to user mode those of the kernel become null. -/
theorem irq_returns (sym : Symbols) (w₀ : World) (h₀ : w₀.Start) (w w' : World)
    (hrun : Run sym w₀ w) (b : Boot) (stackTop : UInt32) (n : UInt8) (stub : Stub)
    (hirq : (n, stub) ∈ [(32, irq0), (33, irq1)])
    (h : Served sym b stackTop n none stub w w') :
    Run sym w₀ { w' with cpu := w'.cpu.execEntries b.dpl stub.exit } ∧
      Back b.dpl w.cpu (w.cpu.regs .eax) w'.cpu.segs (w'.cpu.execEntries b.dpl stub.exit) := by
  obtain ⟨hserved, hback, hmem⟩ := h.irq_back ((World.Ok.of_start h₀).run hrun) hirq
  exact ⟨run_returned hrun hserved hmem, hback⟩

theorem irq_returns_user : ((servedWorld 32 none irq0).cpu.execEntries userBoot.dpl irq0.exit).eip =
    0x400010 :=
  (irq_returns symbols userWorld userWorld_start userWorld _ .nil userBoot 0x2400 32 irq0
    (by simp) (served_user none (by simp))).2.eip

/-- **When a program keeps its data segments over a timer or keyboard interrupt.**  It does when
the machine on which the handler returns has them.  A kernel segment there, such as a system call
loads and keeps over a switch, becomes null. -/
theorem irq_segs_iff (sym : Symbols) (w₀ : World) (h₀ : w₀.Start) (w w' : World)
    (hrun : Run sym w₀ w) (b : Boot) (stackTop : UInt32) (n : UInt8) (stub : Stub)
    (hirq : (n, stub) ∈ [(32, irq0), (33, irq1)])
    (h : Served sym b stackTop n none stub w w') (hcs : w.cpu.cs = 0x1B)
    (hsegs : w.cpu.segs = fun _ => 0x23) :
    ((w'.cpu.execEntries b.dpl stub.exit).segs = w.cpu.segs ↔ w'.cpu.segs = w.cpu.segs) ∧
      ∀ seg, w'.cpu.segs seg = 0x10 → (w'.cpu.execEntries b.dpl stub.exit).segs seg = 0 := by
  obtain ⟨-, hback, -⟩ := h.irq_back ((World.Ok.of_start h₀).run hrun) hirq
  have hring : w.cpu.cs &&& 3 = 3 := by
    rw [hcs]
    decide
  have huser : ¬ w.cpu.kernel := by
    unfold Cpu.kernel
    rw [hring]
    decide
  have hseg : ∀ seg, (w'.cpu.execEntries b.dpl stub.exit).segs seg =
      if b.dpl (w'.cpu.segs seg) < 3 then 0 else w'.cpu.segs seg := by
    intro seg
    rw [hback.segs, hring]
    simp only [huser, not_false_eq_true, true_and]
  rw [hsegs]
  refine ⟨⟨fun hall => funext fun seg => ?_, fun hall => funext fun seg => ?_⟩, fun seg h10 => ?_⟩
  · have hs := hseg seg
    rw [hall] at hs
    split at hs
    · exact absurd hs (show ¬ (0x23 : UInt16) = 0 by decide)
    · exact hs.symm
  · rw [hseg, hall, b.dpl_userData]
    rfl
  · rw [hseg, h10, b.dpl_kernelData]
    rfl

theorem irq_segs_iff_lost : ((servedWorld 33 none irq1).cpu.execEntries userBoot.dpl irq1.exit).segs
    .ds = 0 :=
  (irq_segs_iff symbols userWorld userWorld_start userWorld _ .nil userBoot 0x2400 33 irq1
    (by simp) (served_user none (by simp)) rfl rfl).2 .ds rfl

/-- **A system call gives a task everything back but `eax`**, where it finds what the handler left
in `regs->eax`. -/
theorem isr80_returns (sym : Symbols) (w₀ : World) (h₀ : w₀.Start) (w w' : World)
    (hrun : Run sym w₀ w) (b : Boot) (stackTop : UInt32)
    (h : Served sym b stackTop 0x80 none isr80 w w') (hsegs : SegsOk b w.cpu) :
    Run sym w₀ { w' with cpu := w'.cpu.execEntries b.dpl isr80.exit } ∧
      Back b.dpl w.cpu (w'.cpu.mem.load32 (w'.cpu.esp.toNat + 4 + REGISTERS_EAX)) w.cpu.segs
        (w'.cpu.execEntries b.dpl isr80.exit) ∧
      (w'.cpu.execEntries b.dpl isr80.exit).segs = w.cpu.segs := by
  obtain ⟨hserved, skip, arg, htop, hesp⟩ := h.isr80 ((World.Ok.of_start h₀).run hrun)
  obtain ⟨hback, hmem⟩ := exit_isr80 (d := b.dpl) htop h.kernel hesp
  exact ⟨run_returned hrun hserved hmem, hback, hback.segs_eq hsegs⟩

theorem isr80_returns_user :
    ((servedWorld 0x80 none isr80).cpu.execEntries userBoot.dpl isr80.exit).segs = fun _ => 0x23 :=
  (isr80_returns symbols userWorld userWorld_start userWorld _ .nil userBoot 0x2400
    (served_user none (by simp)) userWorld_segs).2.2

/-- **A page fault whose handler returns leaves no trace in the registers**: the instruction is
run again. -/
theorem isr14_returns (sym : Symbols) (w₀ : World) (h₀ : w₀.Start) (w w' : World)
    (hrun : Run sym w₀ w) (b : Boot) (stackTop error : UInt32)
    (h : Served sym b stackTop 14 (some error) isr14 w w') (hsegs : SegsOk b w.cpu) :
    Run sym w₀ { w' with cpu := w'.cpu.execEntries b.dpl isr14.exit } ∧
      Back b.dpl w.cpu (w.cpu.regs .eax) w.cpu.segs (w'.cpu.execEntries b.dpl isr14.exit) ∧
      (w'.cpu.execEntries b.dpl isr14.exit).segs = w.cpu.segs := by
  obtain ⟨hserved, skip, arg, htop, hesp⟩ := h.isr14 ((World.Ok.of_start h₀).run hrun)
  obtain ⟨hback, hmem⟩ := exit_isr14 (d := b.dpl) htop h.kernel hesp
  exact ⟨run_returned hrun hserved hmem, hback, hback.segs_eq hsegs⟩

theorem isr14_returns_user :
    ((servedWorld 14 (some 5) isr14).cpu.execEntries userBoot.dpl isr14.exit).segs =
      fun _ => 0x23 :=
  (isr14_returns symbols userWorld userWorld_start userWorld _ .nil userBoot 0x2400 5
    (served_user (some 5) (by simp)) userWorld_segs).2.2

end NosmeriOs.Interrupts
