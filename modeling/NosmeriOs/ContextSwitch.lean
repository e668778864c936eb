import NosmeriOs.X86
import NosmeriOs.Tasks

/-! # Context switches (`arch/x86/boot.asm`, `task/task.cpp`)

`switch_context` saves the machine on the stack of the task that calls it, leaves the stack
pointer in that task's object, and goes on with the stack pointer and the saved machine of
another task.  `create_task` and `create_user_task` lay out the stack of a new task by hand, so
that the first switch to it finds what a save would have left.

* `World`: the machine, the stacks of the tasks alive, and what each of them will be when it is
  next switched to (`Resume`): the machine at its own call, or a first entry.  The code never
  sees this; a call and a creation record it.
* `Suspended`: the stack of a task that is not running holds what its `Resume` says.  It is the
  invariant: the running task stays off the other stacks, and a switch turns the machine of the
  caller into such a stack (`saved`) and the stack of the next task into the machine
  (`restore_spec`).
* `run_switch_resumes`: every switch of every run resumes the task switched to. -/

namespace NosmeriOs.ContextSwitch

open Bytes Memory X86 Tasks

/-! ### The code -/

/-- Addresses that the linker gives. -/
structure Symbols where
  switchContext : UInt32
  userTaskTrampoline : UInt32
  exitTask : UInt32

/-- `switch_context`, up to where the stack is changed. -/
def saveContext : List Instr :=
  [.pushfd, .pusha, .load .eax .esp 40, .load .edx .esp 44, .store .eax 4 .esp]

def restoreContext : List Instr := [.load .esp .edx 4, .popa, .popfd, .ret]

def switchContext : List Instr := saveContext ++ restoreContext

def userTaskTrampoline : List Instr :=
  [.movAx 0x23, .movSeg .ds, .movSeg .es, .movSeg .fs, .movSeg .gs, .iret]

/-- The offset of a field, in a structure whose fields have the given sizes and alignments. -/
def offsetof (fields : List (ℕ × ℕ)) (i : ℕ) : ℕ :=
  Heap.roundUp ((fields.take i).foldl (fun off f => Heap.roundUp off f.2 + f.1) 0)
    (fields.getD i (0, 1)).2

/-- The fields of `Task`. -/
def taskFields : List (ℕ × ℕ) :=
  [(4, 4), (4, 4), (4, 4), (4, 4), (4, 4), (4, 4), (1, 1), (4, 4), (4, 4), (4, 4), (4 * MAX_FD, 4),
    (48, 4)]

/-- `offsetof(Task, esp)`: `esp` follows the id. -/
def TASK_ESP : ℕ := offsetof taskFields 1

/-- `stack_top[-i] = w` -/
def put (stackTop : UInt32) (m : Mem) (i : ℕ) (w : UInt32) : Mem :=
  m.store32 (stackTop.toNat - 4 * i) w

/-- `new_task->esp = esp` -/
def setEsp (m : Mem) (newTask esp : UInt32) : Mem := m.store32 (newTask.toNat + TASK_ESP) esp

/-- The stack that `create_task` lays out. -/
def createTask (sym : Symbols) (m : Mem) (newTask stackMem entryPoint : UInt32) : Mem :=
  let stackTop := stackMem + TASK_STACK_SIZE
  let m := put stackTop m 1 sym.exitTask
  let m := put stackTop m 2 entryPoint
  let m := put stackTop m 3 0x0202
  let m := (List.range' 4 8).foldl (fun m i => put stackTop m i 0) m
  setEsp m newTask (stackTop - 44)

/-- The kernel stack that `create_user_task` lays out. -/
def createUserTask (sym : Symbols) (m : Mem) (newTask kernelStackMem entryPoint : UInt32) : Mem :=
  let kernelStackTop := kernelStackMem + TASK_STACK_SIZE
  let m := put kernelStackTop m 1 0x23
  let m := put kernelStackTop m 2 USER_STACK_TOP
  let m := put kernelStackTop m 3 0x0202
  let m := put kernelStackTop m 4 0x1B
  let m := put kernelStackTop m 5 entryPoint
  let m := put kernelStackTop m 6 sym.userTaskTrampoline
  let m := put kernelStackTop m 7 0x0202
  let m := (List.range' 8 8).foldl (fun m i => put kernelStackTop m i 0) m
  setEsp m newTask (kernelStackTop - 60)

theorem task_esp : TASK_ESP = 4 := by decide

/-! ### Runs -/

/-- The addresses of a kernel stack. -/
structure Stack where
  lo : ℕ
  hi : ℕ

/-- The stack in a block from `kmalloc`. -/
def kernelStack (stackMem : UInt32) : Stack :=
  ⟨stackMem.toNat, stackMem.toNat + TASK_STACK_SIZE.toNat⟩

/-- What a task will be when it is switched to. -/
inductive Resume where
  /-- It called `switch_context` with this machine and this return address. -/
  | call (regs : Reg → UInt32) (eflags : Eflags) (ret : UInt32)
  /-- It was built by `create_task`. -/
  | kernelTask (entryPoint : UInt32)
  /-- It was built by `create_user_task`. -/
  | userTask (entryPoint kernelStackTop : UInt32)

/-- Tasks are known by the addresses of their objects; `none` is no task. -/
structure World where
  cpu : Cpu
  current : UInt32
  stackOf : UInt32 → Option Stack
  resume : UInt32 → Resume

/-- The stacks and the objects of the tasks lie apart. -/
structure Apart (stackOf : UInt32 → Option Stack) : Prop where
  bound : ∀ t s, stackOf t = some s → s.hi < 2 ^ 32 ∧ t.toNat + 8 ≤ 2 ^ 32
  stack : ∀ t s t' s', stackOf t = some s → stackOf t' = some s' → t ≠ t' →
    s.hi ≤ s'.lo ∨ s'.hi ≤ s.lo
  esp : ∀ t s t' s', stackOf t = some s → stackOf t' = some s' → t ≠ t' →
    t.toNat + 4 ≤ t'.toNat ∨ t'.toNat + 4 ≤ t.toNat
  object : ∀ t s t' s', stackOf t = some s → stackOf t' = some s' →
    s'.hi ≤ t.toNat + 4 ∨ t.toNat + 8 ≤ s'.lo

namespace World

variable (sym : Symbols)

/-- The bytes that belong to a task while it is not running: its stack and its saved `esp`. -/
def Owns (w : World) (t : UInt32) (x : ℕ) : Prop :=
  ∃ s, w.stackOf t = some s ∧ (s.lo ≤ x ∧ x < s.hi ∨ t.toNat + 4 ≤ x ∧ x < t.toNat + 8)

/-- The running task is about to call `switch_context(current, next)`, in the kernel, with the
arguments and room for the frame on its own stack. -/
structure Calls (w : World) (next : UInt32) : Prop where
  alive : ∃ s, w.stackOf next = some s
  kernel : w.cpu.cs &&& 3 = 0
  prevArg : w.cpu.mem.load32 w.cpu.esp.toNat = w.current
  nextArg : w.cpu.mem.load32 (w.cpu.esp.toNat + 4) = next
  room : ∃ s, w.stackOf w.current = some s ∧ s.lo + 40 ≤ w.cpu.esp.toNat ∧
    w.cpu.esp.toNat + 8 ≤ s.hi

/-- `switch_context(current, next)`, called from before the address `ret`. -/
def switch (w : World) (next ret : UInt32) : World :=
  { w with
    cpu := (w.cpu.call sym.switchContext ret).execAll switchContext
    current := next
    resume := Function.update w.resume w.current (.call w.cpu.regs w.cpu.eflags ret) }

/-- A task enters with its stack laid out. -/
def add (w : World) (t : UInt32) (stack : Stack) (mem : Mem) (r : Resume) : World :=
  { w with
    cpu := { w.cpu with mem := mem }
    stackOf := Function.update w.stackOf t (some stack)
    resume := Function.update w.resume t r }

def remove (w : World) (t : UInt32) : World :=
  { w with stackOf := Function.update w.stackOf t none }

end World

inductive Step (sym : Symbols) : World → World → Prop
  /-- The running task goes on, in the kernel or in user mode, with whatever it does to the
  machine; the other tasks' bytes are not its own. -/
  | work {w : World} (c : Cpu) (hown : ∀ t x, t ≠ w.current → w.Owns t x → c.mem x = w.cpu.mem x) :
      Step sym w { w with cpu := c }
  | createTask {w : World} (t stackMem entryPoint : UInt32) (hnew : w.stackOf t = none)
      (hapart : Apart (Function.update w.stackOf t (some (kernelStack stackMem)))) :
      Step sym w (w.add t (kernelStack stackMem) (createTask sym w.cpu.mem t stackMem entryPoint)
        (.kernelTask entryPoint))
  | createUserTask {w : World} (t kernelStackMem entryPoint : UInt32) (hnew : w.stackOf t = none)
      (hapart : Apart (Function.update w.stackOf t (some (kernelStack kernelStackMem)))) :
      Step sym w (w.add t (kernelStack kernelStackMem)
        (createUserTask sym w.cpu.mem t kernelStackMem entryPoint)
        (.userTask entryPoint (kernelStackMem + TASK_STACK_SIZE)))
  | switch {w : World} (next ret : UInt32) (hcall : w.Calls next) :
      Step sym w (w.switch sym next ret)
  /-- `kill_task`, of a task that is not running. -/
  | kill {w : World} (t : UInt32) (hne : t ≠ w.current) : Step sym w (w.remove t)

inductive Run (sym : Symbols) (w : World) : World → Prop
  | nil : Run sym w w
  | snoc {w₁ w₂ : World} : Run sym w w₁ → Step sym w₁ w₂ → Run sym w w₂

/-- Only the kernel's own task is there. -/
def World.Start (w : World) : Prop :=
  Apart w.stackOf ∧ ∃ s, w.stackOf = Function.update (fun _ => none) w.current (some s)

/-- The machine is what a task was to be resumed as. -/
def Resumed (sym : Symbols) (c : Cpu) : Resume → Prop
  | .call regs eflags ret => c.regs = regs ∧ c.eflags = eflags ∧ c.eip = ret
  | .kernelTask entryPoint => c.eip = entryPoint ∧ c.eflags.interrupts ∧
      c.mem.load32 c.esp.toNat = sym.exitTask
  | .userTask entryPoint kernelStackTop => c.eip = sym.userTaskTrampoline ∧
      c.esp + 20 = kernelStackTop ∧
      let u := c.execAll userTaskTrampoline
      u.cs = 0x1B ∧ u.eip = entryPoint ∧ u.ss = 0x23 ∧ u.esp = USER_STACK_TOP ∧
        u.eflags.interrupts

/-! ### Suspended tasks -/

/-- What lies on the stack of a task that is not running, from its saved `esp` on; `popa` skips
the fourth word. -/
def savedWords (sym : Symbols) (skip : UInt32) : Resume → List UInt32
  | .call regs eflags ret => [regs .edi, regs .esi, regs .ebp, skip, regs .ebx, regs .edx,
      regs .ecx, regs .eax, eflags.word, ret]
  | .kernelTask entryPoint => [0, 0, 0, skip, 0, 0, 0, 0, 0x0202, entryPoint, sym.exitTask]
  | .userTask entryPoint _ => [0, 0, 0, skip, 0, 0, 0, 0, 0x0202, sym.userTaskTrampoline,
      entryPoint, 0x1B, 0x0202, USER_STACK_TOP, 0x23]

/-- The saved `esp` agrees with the stack pointer after the switch. -/
def EspOk (esp : UInt32) : Resume → Prop
  | .call regs _ _ => esp + 40 = regs .esp
  | .kernelTask _ => True
  | .userTask _ kernelStackTop => esp + 60 = kernelStackTop

/-- The task with this object and this stack will be resumed as told. -/
structure Suspended (sym : Symbols) (m : Mem) (t : UInt32) (s : Stack) (r : Resume)
    (esp skip : UInt32) : Prop where
  saved : m.load32 (t.toNat + 4) = esp
  words : Stacked m esp.toNat (savedWords sym skip r)
  lo : s.lo ≤ esp.toNat
  hi : esp.toNat + 4 * (savedWords sym skip r).length ≤ s.hi
  esp : EspOk esp r

section suspended

variable {sym : Symbols} {m m' : Mem} {t : UInt32} {s : Stack} {r : Resume} {esp skip : UInt32}

theorem Suspended.congr (h : Suspended sym m t s r esp skip)
    (hs : ∀ x, s.lo ≤ x → x < s.hi → m' x = m x)
    (ht : ∀ x, t.toNat + 4 ≤ x → x < t.toNat + 8 → m' x = m x) :
    Suspended sym m' t s r esp skip := by
  have hlo := h.lo
  have hhi := h.hi
  refine ⟨?_, ?_, hlo, hhi, h.esp⟩
  · rw [← h.saved]
    exact Mem.load32_congr fun x h1 h2 => ht x h1 (by omega)
  · exact h.words.congr fun x h1 h2 => hs x (by omega) (by omega)

end suspended

/-- The rest of `switch_context` takes a saved machine off its stack. -/
theorem restore_spec {c : Cpu} {edi esi ebp skip ebx edx ecx eax flags ret esp : UInt32}
    {ws : List UInt32} (hesp : c.load32 (c.regs .edx + 4) = esp)
    (h : Stacked c.mem esp.toNat
      (edi :: esi :: ebp :: skip :: ebx :: edx :: ecx :: eax :: flags :: ret :: ws))
    (hlt : esp.toNat + 40 < 2 ^ 32) :
    c.execAll restoreContext = { c with
      regs := Cpu.frameRegs edi esi ebp (esp + 40) ebx edx ecx eax
      eflags := .ofWord flags
      eip := ret } := by
  have hload : c.exec (.load .esp .edx 4) = c.setReg .esp esp := by
    simp only [Cpu.exec, hesp]
  have hsp : (c.setReg .esp esp).esp = esp := by simp [Cpu.setReg, Cpu.esp]
  have hall : c.execAll restoreContext =
      (((c.exec (.load .esp .edx 4)).exec .popa).exec .popfd).exec .ret := rfl
  rw [← hsp] at h hlt
  rw [hall, hload, Cpu.popa_popfd_ret h hlt, hsp]
  rfl

/-- The first half of `switch_context`: the frame is on the caller's stack and its address in the
caller's object. -/
theorem save_spec (sym : Symbols) {c : Cpu} {prev next : UInt32} (target ret : UInt32)
    (hprev : c.mem.load32 c.esp.toNat = prev) (hnext : c.mem.load32 (c.esp.toNat + 4) = next)
    (hlo : 40 ≤ c.esp.toNat) (hhi : c.esp.toNat + 8 < 2 ^ 32) (hobj : prev.toNat + 8 ≤ 2 ^ 32) :
    ∃ esp : UInt32, esp.toNat = c.esp.toNat - 40 ∧ esp + 40 = c.esp ∧
      ((c.call target ret).execAll saveContext).regs .edx = next ∧
      ((c.call target ret).execAll saveContext).cs = c.cs ∧
      ((c.call target ret).execAll saveContext).mem =
        (storeDown c.mem c.esp.toNat
          (savedWords sym (c.esp - 4 - 4) (.call c.regs c.eflags ret)).reverse).store32
          (prev.toNat + 4) esp := by
  have hwords : (savedWords sym (c.esp - 4 - 4) (.call c.regs c.eflags ret)).reverse =
      [ret, c.eflags.word, c.regs .eax, c.regs .ecx, c.regs .edx, c.regs .ebx, c.esp - 4 - 4,
        c.regs .ebp, c.regs .esi, c.regs .edi] := rfl
  rw [hwords]
  generalize hws : [ret, c.eflags.word, c.regs .eax, c.regs .ecx, c.regs .edx, c.regs .ebx,
    c.esp - 4 - 4, c.regs .ebp, c.regs .esi, c.regs .edi] = ws
  have hlen : 4 * ws.length = 40 := by
    rw [← hws]
    rfl
  obtain ⟨hesp, hmem, esp, hpush⟩ := Cpu.pushAll_spec
    (show 4 * ws.length ≤ c.esp.toNat by omega)
  rw [hlen] at hesp
  have hespv : (c.pushAll ws).regs .esp = esp := by rw [hpush]; simp
  have hcs : (c.pushAll ws).cs = c.cs := by rw [hpush]
  have hsaved : ((c.call target ret).exec .pushfd).exec .pusha = (c.pushAll ws).jump target := by
    rw [← hws]
    exact Cpu.call_pushfd_pusha c target ret
  have hall : (c.call target ret).execAll saveContext =
      (((((c.call target ret).exec .pushfd).exec .pusha).exec (.load .eax .esp 40)).exec
        (.load .edx .esp 44)).exec (.store .eax 4 .esp) := rfl
  have hesp' : esp.toNat = c.esp.toNat - 40 := by
    rw [← hesp, ← hespv]
    rfl
  have h40 : (esp + 40).toNat = c.esp.toNat := by
    rw [UInt32.toNat_add, show (40 : UInt32).toNat = 40 from rfl]
    omega
  have h44 : (esp + 44).toNat = c.esp.toNat + 4 := by
    rw [UInt32.toNat_add, show (44 : UInt32).toNat = 44 from rfl]
    omega
  have hobj' : (prev + 4).toNat = prev.toNat + 4 := Cpu.toNat_add_four (by omega)
  have habove : ∀ a, c.esp.toNat ≤ a → (storeDown c.mem c.esp.toNat ws).load32 a =
      c.mem.load32 a :=
    fun a ha => Mem.load32_congr fun x h1 h2 => storeDown_other (by omega) (by omega)
  rw [hall, hsaved]
  generalize c.pushAll ws = x at hmem hespv hcs
  have hload : ∀ a, (x.jump target).load32 a = (storeDown c.mem c.esp.toNat ws).load32 a.toNat := by
    intro a
    show x.mem.load32 a.toNat = _
    rw [hmem]
  have heax : (x.jump target).exec (.load .eax .esp 40) = (x.jump target).setReg .eax prev := by
    have : (x.jump target).regs .esp = esp := hespv
    simp only [Cpu.exec, this, hload, h40, habove _ (le_refl _), hprev]
  have hedx : ((x.jump target).setReg .eax prev).exec (.load .edx .esp 44) =
      ((x.jump target).setReg .eax prev).setReg .edx next := by
    have : ((x.jump target).setReg .eax prev).regs .esp = esp := by
      simpa [Cpu.setReg, Cpu.jump] using hespv
    have hl : ((x.jump target).setReg .eax prev).load32 (esp + 44) = next := by
      show (x.jump target).load32 (esp + 44) = next
      rw [hload, h44, habove _ (by omega), hnext]
    simp only [Cpu.exec, this, hl]
  rw [heax, hedx]
  refine ⟨esp, hesp', UInt32.toNat.inj h40, ?_, hcs, ?_⟩
  · simp [Cpu.exec, Cpu.setReg]
  · have hbase : (((x.jump target).setReg .eax prev).setReg .edx next).regs .eax = prev := by
      simp [Cpu.setReg]
    have hsrc : (((x.jump target).setReg .eax prev).setReg .edx next).regs .esp = esp := by
      simpa [Cpu.setReg, Cpu.jump] using hespv
    simp only [Cpu.exec, hbase, hsrc, hobj']
    rw [← hmem]
    rfl

/-! ### New stacks -/

theorem createTask_eq (sym : Symbols) (m : Mem) (t stackMem entryPoint : UInt32) :
    createTask sym m t stackMem entryPoint =
      setEsp (storeDown m (stackMem + TASK_STACK_SIZE).toNat
        (savedWords sym 0 (.kernelTask entryPoint)).reverse) t (stackMem + TASK_STACK_SIZE - 44) := by
  simp [createTask, put, storeDown, savedWords, List.range', Nat.sub_sub]

theorem createUserTask_eq (sym : Symbols) (m : Mem) (t kernelStackMem entryPoint : UInt32) :
    createUserTask sym m t kernelStackMem entryPoint =
      setEsp (storeDown m (kernelStackMem + TASK_STACK_SIZE).toNat
        (savedWords sym 0 (.userTask entryPoint (kernelStackMem + TASK_STACK_SIZE))).reverse) t
        (kernelStackMem + TASK_STACK_SIZE - 60) := by
  simp [createUserTask, put, storeDown, savedWords, List.range', Nat.sub_sub]

/-- The top of a stack in a block from `kmalloc`, and the addresses counted down from it. -/
theorem stackTop_toNat {stackMem : UInt32} (h : (kernelStack stackMem).hi < 2 ^ 32) :
    (stackMem + TASK_STACK_SIZE).toNat = (kernelStack stackMem).hi ∧
      ∀ n : UInt32, n.toNat ≤ TASK_STACK_SIZE.toNat →
        (stackMem + TASK_STACK_SIZE - n).toNat + n.toNat = (kernelStack stackMem).hi := by
  have htop : (stackMem + TASK_STACK_SIZE).toNat = (kernelStack stackMem).hi := by
    rw [UInt32.toNat_add]
    exact Nat.mod_eq_of_lt h
  refine ⟨htop, fun n hn => ?_⟩
  have hle : n.toNat ≤ (stackMem + TASK_STACK_SIZE).toNat := by
    rw [htop]
    exact hn.trans (Nat.le_add_left _ _)
  rw [UInt32.toNat_sub_of_le _ _ (UInt32.le_iff_toNat_le.2 hle), htop] at *
  exact Nat.sub_add_cancel hle

theorem stackTop_ge {stackMem esp : UInt32} {n : ℕ} (h : esp.toNat + n = (kernelStack stackMem).hi)
    (hn : n ≤ TASK_STACK_SIZE.toNat) : (kernelStack stackMem).lo ≤ esp.toNat := by
  simp only [kernelStack] at h ⊢
  omega

theorem setEsp_other (m : Mem) (t esp : UInt32) {x : ℕ}
    (h : x < t.toNat + 4 ∨ t.toNat + 8 ≤ x) : setEsp m t esp x = m x := by
  rw [setEsp, task_esp, Mem.store32_other _ _ (by omega)]

/-- A stack laid out by hand is the stack of a suspended task. -/
theorem suspended_setEsp {sym : Symbols} {m : Mem} {t esp : UInt32} {s : Stack} {r : Resume}
    (hobj : s.hi ≤ t.toNat + 4 ∨ t.toNat + 8 ≤ s.lo)
    (hesp : esp.toNat + 4 * (savedWords sym 0 r).length = s.hi) (hlo : s.lo ≤ esp.toNat)
    (hok : EspOk esp r) :
    Suspended sym (setEsp (storeDown m s.hi (savedWords sym 0 r).reverse) t esp) t s r esp 0 := by
  have hwords := stacked_storeDown (m := m) (a := s.hi)
    (show 4 * (savedWords sym 0 r).reverse.length ≤ s.hi by rw [List.length_reverse]; omega)
  rw [List.length_reverse, List.reverse_reverse,
    show s.hi - 4 * (savedWords sym 0 r).length = esp.toNat by omega] at hwords
  refine ⟨?_, hwords.congr fun x h1 h2 => setEsp_other _ _ _ (by omega), hlo, hesp.le, hok⟩
  rw [setEsp, task_esp, Mem.load32_store32_same]

/-! ### The invariant -/

structure World.Ok (sym : Symbols) (w : World) : Prop where
  apart : Apart w.stackOf
  current : ∃ s, w.stackOf w.current = some s
  suspended : ∀ t s, w.stackOf t = some s → t ≠ w.current →
    ∃ esp skip, Suspended sym w.cpu.mem t s (w.resume t) esp skip

section steps

variable {sym : Symbols} {w : World}

theorem World.Ok.of_start (h : w.Start) : w.Ok sym := by
  obtain ⟨hapart, s, hs⟩ := h
  refine ⟨hapart, ⟨s, by rw [hs, Function.update_self]⟩, fun t s' ht hne => ?_⟩
  rw [hs, Function.update_of_ne hne] at ht
  cases ht

theorem World.Ok.work (h : w.Ok sym) {c : Cpu}
    (hown : ∀ t x, t ≠ w.current → w.Owns t x → c.mem x = w.cpu.mem x) :
    World.Ok sym { w with cpu := c } := by
  refine ⟨h.apart, h.current, fun t s ht hne => ?_⟩
  obtain ⟨esp, skip, hsus⟩ := h.suspended t s ht hne
  exact ⟨esp, skip, hsus.congr (fun x h1 h2 => hown t x hne ⟨s, ht, Or.inl ⟨h1, h2⟩⟩)
    fun x h1 h2 => hown t x hne ⟨s, ht, Or.inr ⟨h1, h2⟩⟩⟩

/-- A new task: its stack is laid out, no other task's bytes are touched. -/
theorem World.Ok.add (h : w.Ok sym) {t esp : UInt32} {s : Stack} {r : Resume}
    (hnew : w.stackOf t = none) (hapart : Apart (Function.update w.stackOf t (some s)))
    (hesp : esp.toNat + 4 * (savedWords sym 0 r).length = s.hi) (hlo : s.lo ≤ esp.toNat)
    (hok : EspOk esp r) :
    (w.add t s (setEsp (storeDown w.cpu.mem s.hi (savedWords sym 0 r).reverse) t esp) r).Ok sym := by
  have ht : Function.update w.stackOf t (some s) t = some s := Function.update_self ..
  have hold : ∀ {t' s'}, w.stackOf t' = some s' → t' ≠ t ∧
      Function.update w.stackOf t (some s) t' = some s' := by
    intro t' s' hs'
    have hne : t' ≠ t := by
      rintro rfl
      rw [hnew] at hs'
      cases hs'
    exact ⟨hne, by rw [Function.update_of_ne hne, hs']⟩
  refine ⟨hapart, ?_, fun t' s' ht' hne => ?_⟩
  · obtain ⟨s', hs'⟩ := h.current
    exact ⟨s', (hold hs').2⟩
  · by_cases htt : t' = t
    · subst htt
      obtain rfl : s = s' := Option.some.inj (ht.symm.trans ht')
      refine ⟨esp, 0, ?_⟩
      rw [show (w.add t' s _ r).resume t' = r from Function.update_self ..]
      exact suspended_setEsp (hapart.object _ _ _ _ ht ht) hesp hlo hok
    · have hs' : w.stackOf t' = some s' := by
        rw [← ht']
        exact (Function.update_of_ne htt _ _).symm
      obtain ⟨esp', skip, hsus⟩ := h.suspended t' s' hs' hne
      refine ⟨esp', skip, ?_⟩
      rw [show (w.add t s _ r).resume t' = w.resume t' from Function.update_of_ne htt _ _]
      have hstack := hapart.stack _ _ _ _ ht ht' (Ne.symm htt)
      have hespApart := hapart.esp _ _ _ _ ht ht' (Ne.symm htt)
      have hobj := hapart.object _ _ _ _ ht ht'
      have hobj' := hapart.object _ _ _ _ ht' ht
      have hlen : 4 * (savedWords sym 0 r).reverse.length ≤ s.hi := by
        rw [List.length_reverse]
        omega
      have hdown : s.hi - 4 * (savedWords sym 0 r).reverse.length = esp.toNat := by
        rw [List.length_reverse]
        omega
      refine hsus.congr (fun x h1 h2 => ?_) fun x h1 h2 => ?_
      · refine (setEsp_other _ _ _ (by omega)).trans (storeDown_other hlen ?_)
        rw [hdown]
        omega
      · refine (setEsp_other _ _ _ (by omega)).trans (storeDown_other hlen ?_)
        rw [hdown]
        omega

theorem World.Ok.remove (h : w.Ok sym) {t : UInt32} (hne : t ≠ w.current) :
    (w.remove t).Ok sym := by
  have hold : ∀ {t' s'}, Function.update w.stackOf t none t' = some s' →
      w.stackOf t' = some s' := by
    intro t' s' hs'
    by_cases htt : t' = t
    · rw [htt, Function.update_self] at hs'
      cases hs'
    · rwa [Function.update_of_ne htt] at hs'
  refine ⟨⟨?_, ?_, ?_, ?_⟩, ?_, fun t' s' ht' hne' => h.suspended t' s' (hold ht') hne'⟩
  · exact fun t s ht => h.apart.bound t s (hold ht)
  · exact fun t s t' s' ht ht' => h.apart.stack t s t' s' (hold ht) (hold ht')
  · exact fun t s t' s' ht ht' => h.apart.esp t s t' s' (hold ht) (hold ht')
  · exact fun t s t' s' ht ht' => h.apart.object t s t' s' (hold ht) (hold ht')
  · obtain ⟨s, hs⟩ := h.current
    exact ⟨s, (Function.update_of_ne hne.symm _ _).trans hs⟩

/-- When the frame of the caller is saved, every task alive is suspended, the caller too. -/
theorem World.Ok.saved (h : w.Ok sym) {next : UInt32} (ret target : UInt32) (hcall : w.Calls next) :
    ((w.cpu.call target ret).execAll saveContext).regs .edx = next ∧
      ((w.cpu.call target ret).execAll saveContext).cs = w.cpu.cs ∧
      ∀ t s, w.stackOf t = some s → ∃ esp skip,
        Suspended sym ((w.cpu.call target ret).execAll saveContext).mem t s
          (Function.update w.resume w.current (.call w.cpu.regs w.cpu.eflags ret) t) esp skip := by
  obtain ⟨s, hs, hlo, hhi⟩ := hcall.room
  obtain ⟨hbound, hobj⟩ := h.apart.bound _ _ hs
  obtain ⟨esp, hesp, hesp40, hedx, hcs, hmem⟩ := save_spec sym target ret hcall.prevArg
    hcall.nextArg (by omega) (by omega) hobj
  refine ⟨hedx, hcs, fun t s' ht => ?_⟩
  rw [hmem]
  generalize hws : savedWords sym (w.cpu.esp - 4 - 4) (.call w.cpu.regs w.cpu.eflags ret) = ws
  have hlen : ws.length = 10 := by
    rw [← hws]
    rfl
  have hroom : 4 * ws.reverse.length ≤ w.cpu.esp.toNat := by
    rw [List.length_reverse]
    omega
  have hobjs := h.apart.object _ _ _ _ hs hs
  by_cases htc : t = w.current
  · subst htc
    obtain rfl : s = s' := Option.some.inj (hs.symm.trans ht)
    have hstacked := stacked_storeDown (m := w.cpu.mem) hroom
    rw [List.reverse_reverse, List.length_reverse, hlen,
      show w.cpu.esp.toNat - 4 * 10 = esp.toNat by omega] at hstacked
    refine ⟨esp, w.cpu.esp - 4 - 4, ?_⟩
    rw [Function.update_self]
    refine ⟨Mem.load32_store32_same _ _ _, ?_, by omega, ?_, hesp40⟩
    · rw [hws]
      exact hstacked.congr fun x h1 h2 => Mem.store32_other _ _ (by omega)
    · rw [hws]
      omega
  · obtain ⟨esp', skip, hsus⟩ := h.suspended t s' ht htc
    refine ⟨esp', skip, ?_⟩
    rw [Function.update_of_ne htc]
    have hstack := h.apart.stack _ _ _ _ ht hs htc
    have hespApart := h.apart.esp _ _ _ _ ht hs htc
    have hobj₁ := h.apart.object _ _ _ _ ht hs
    have hobj₂ := h.apart.object _ _ _ _ hs ht
    have hdown : w.cpu.esp.toNat - 4 * ws.reverse.length = esp.toNat := by
      rw [List.length_reverse]
      omega
    refine hsus.congr (fun x h1 h2 => ?_) fun x h1 h2 => ?_
    · refine (Mem.store32_other _ _ (by omega)).trans (storeDown_other hroom ?_)
      rw [hdown]
      omega
    · refine (Mem.store32_other _ _ (by omega)).trans (storeDown_other hroom ?_)
      rw [hdown]
      omega

theorem interrupts_0x0202 : (Eflags.ofWord 0x0202).interrupts := by
  unfold Eflags.interrupts
  decide

/-- The trampoline enters user mode through the frame that `create_user_task` laid out. -/
theorem trampoline_spec {c : Cpu} {entryPoint : UInt32} (hcs : c.cs &&& 3 = 0)
    (h : Stacked c.mem c.esp.toNat [entryPoint, 0x1B, 0x0202, USER_STACK_TOP, 0x23])
    (hlt : c.esp.toNat + 20 < 2 ^ 32) :
    (c.execAll userTaskTrampoline).cs = 0x1B ∧ (c.execAll userTaskTrampoline).eip = entryPoint ∧
      (c.execAll userTaskTrampoline).ss = 0x23 ∧
      (c.execAll userTaskTrampoline).esp = USER_STACK_TOP ∧
      (c.execAll userTaskTrampoline).eflags.interrupts := by
  obtain ⟨x, hx⟩ : ∃ x, x = c.execAll
      [.movAx 0x23, .movSeg .ds, .movSeg .es, .movSeg .fs, .movSeg .gs] := ⟨_, rfl⟩
  have hall : c.execAll userTaskTrampoline = x.exec .iret := by
    rw [hx]
    rfl
  have hesp : x.esp = c.esp := by
    rw [hx]
    simp [Cpu.execAll, Cpu.exec, Cpu.setReg, Cpu.esp]
  have hmem : x.mem = c.mem := by
    rw [hx]
    rfl
  have hxcs : x.cs = c.cs := by
    rw [hx]
    rfl
  have hring : (0x1B : UInt32).toUInt16 &&& 3 ≠ x.cs &&& 3 := by
    rw [hxcs, hcs]
    decide
  rw [← hesp, ← hmem] at h
  rw [hall, Cpu.iret_outer_spec h (by rw [hesp]; exact hlt) hring]
  refine ⟨rfl, rfl, rfl, ?_, interrupts_0x0202⟩
  simp [Cpu.setReg, Cpu.esp]

/-- The machine that `restoreContext` makes of a suspended task. -/
theorem restored {c : Cpu} {next : UInt32} {s : Stack} {r : Resume} {esp skip : UInt32}
    (hedx : c.regs .edx = next) (hbound : s.hi < 2 ^ 32 ∧ next.toNat + 8 ≤ 2 ^ 32)
    (hcs : c.cs &&& 3 = 0) (h : Suspended sym c.mem next s r esp skip) :
    (c.execAll restoreContext).mem = c.mem ∧ Resumed sym (c.execAll restoreContext) r := by
  have hhi := h.hi
  have hload : c.load32 (c.regs .edx + 4) = esp := by
    rw [hedx, Cpu.load32, Cpu.toNat_add_four (by omega)]
    exact h.saved
  have hwords := h.words
  have hespOk := h.esp
  have h40 : esp.toNat + 40 < 2 ^ 32 → (esp + 40).toNat = esp.toNat + 40 := by
    intro hlt
    rw [UInt32.toNat_add]
    exact Nat.mod_eq_of_lt hlt
  cases r with
  | call regs eflags ret =>
      have hlen : esp.toNat + 4 * 10 ≤ s.hi := hhi
      rw [restore_spec hload hwords (by omega)]
      refine ⟨rfl, ?_, Eflags.ofWord_word _, rfl⟩
      funext r
      cases r <;> simp [Cpu.frameRegs, hespOk.symm]
  | kernelTask entryPoint =>
      have hlen : esp.toNat + 4 * 11 ≤ s.hi := hhi
      rw [restore_spec hload hwords (by omega)]
      refine ⟨rfl, rfl, interrupts_0x0202, ?_⟩
      obtain ⟨-, -, -, -, -, -, -, -, -, -, hexit, -⟩ := hwords
      show c.mem.load32 (esp + 40).toNat = sym.exitTask
      rw [h40 (by omega)]
      exact hexit
  | userTask entryPoint kernelStackTop =>
      have hlen : esp.toNat + 4 * 15 ≤ s.hi := hhi
      have htop : esp + 60 = kernelStackTop := hespOk
      obtain ⟨x, hx⟩ : ∃ x, x = c.execAll restoreContext := ⟨_, rfl⟩
      have hspec := restore_spec hload hwords (by omega)
      rw [← hx] at hspec
      have hmem : x.mem = c.mem := by rw [hspec]
      have hxcs : x.cs = c.cs := by rw [hspec]
      have heip : x.eip = sym.userTaskTrampoline := by rw [hspec]
      have hxesp : x.esp = esp + 40 := by
        rw [hspec]
        rfl
      rw [← hx]
      refine ⟨hmem, heip, ?_, ?_⟩
      · rw [← htop, hxesp, UInt32.add_assoc]
        rfl
      · obtain ⟨-, -, -, -, -, -, -, -, -, -, hiret⟩ := hwords
        apply trampoline_spec (by rw [hxcs]; exact hcs)
        · rw [hmem, hxesp, h40 (by omega)]
          exact hiret
        · rw [hxesp, h40 (by omega)]
          omega

/-- A switch resumes the next task and leaves every other one suspended. -/
theorem World.Ok.switch (h : w.Ok sym) {next ret : UInt32} (hcall : w.Calls next) :
    (w.switch sym next ret).Ok sym ∧
      Resumed sym (w.switch sym next ret).cpu ((w.switch sym next ret).resume next) := by
  obtain ⟨hedx, hcs, hsus⟩ := h.saved ret sym.switchContext hcall
  obtain ⟨s, hs⟩ := hcall.alive
  obtain ⟨esp, skip, hnext⟩ := hsus next s hs
  have hkernel := hcall.kernel
  rw [← hcs] at hkernel
  obtain ⟨hmem, hres⟩ := restored hedx (h.apart.bound _ _ hs) hkernel hnext
  have hcpu : (w.switch sym next ret).cpu =
      ((w.cpu.call sym.switchContext ret).execAll saveContext).execAll restoreContext :=
    List.foldl_append
  refine ⟨⟨h.apart, ⟨s, hs⟩, fun t s' ht _ => ?_⟩, ?_⟩
  · rw [hcpu, hmem]
    exact hsus t s' ht
  · rw [hcpu]
    exact hres

theorem World.Ok.step {w' : World} (h : w.Ok sym) (hstep : Step sym w w') : w'.Ok sym := by
  cases hstep with
  | work c hown => exact h.work hown
  | createTask t stackMem entryPoint hnew hapart =>
      obtain ⟨htop, hesp⟩ := stackTop_toNat (hapart.bound t _ (Function.update_self ..)).1
      have hesp' : (stackMem + TASK_STACK_SIZE - 44).toNat + 44 = (kernelStack stackMem).hi :=
        hesp 44 (by decide)
      rw [createTask_eq, htop]
      exact h.add hnew hapart hesp' (stackTop_ge hesp' (by decide)) trivial
  | createUserTask t kernelStackMem entryPoint hnew hapart =>
      obtain ⟨htop, hesp⟩ := stackTop_toNat (hapart.bound t _ (Function.update_self ..)).1
      have hesp' : (kernelStackMem + TASK_STACK_SIZE - 60).toNat + 60 =
          (kernelStack kernelStackMem).hi := hesp 60 (by decide)
      rw [createUserTask_eq, htop]
      exact h.add hnew hapart hesp' (stackTop_ge hesp' (by decide)) (UInt32.sub_add_cancel _ _)
  | switch next ret hcall => exact (h.switch hcall).1
  | kill t hne => exact h.remove hne

theorem World.Ok.run {w' : World} (h : w.Ok sym) (hrun : Run sym w w') : w'.Ok sym := by
  induction hrun with
  | nil => exact h
  | snoc _ hstep ih => exact ih.step hstep

end steps

/-- **Context switches preserve every task's machine.**  In every run, a call of
`switch_context` goes on with what the next task was at its own last call; the first switch to
a task made by `create_task` or `create_user_task` starts it as it was laid out. -/
theorem run_switch_resumes (sym : Symbols) (w₀ : World) (h₀ : w₀.Start) (w : World)
    (hrun : Run sym w₀ w) (next ret : UInt32) (hcall : w.Calls next) :
    Resumed sym (w.switch sym next ret).cpu ((w.switch sym next ret).resume next) :=
  (((World.Ok.of_start h₀).run hrun).switch hcall).2

/-! ### A kernel task and a user task -/

namespace World

/-- The running task pushes the arguments of `switch_context` at `esp`, on its own stack. -/
def calling (w : World) (esp next : UInt32) : World :=
  { w with cpu := { w.cpu with
    regs := Function.update w.cpu.regs .esp esp
    cs := 0x08
    mem := (w.cpu.mem.store32 (esp.toNat + 4) next).store32 esp.toNat w.current } }

theorem calls_calling {w : World} {esp next : UInt32} {s s' : Stack}
    (hs : w.stackOf w.current = some s) (hs' : w.stackOf next = some s')
    (hlo : s.lo + 40 ≤ esp.toNat) (hhi : esp.toNat + 8 ≤ s.hi) :
    (w.calling esp next).Calls next := by
  have hesp : (w.calling esp next).cpu.esp = esp := by simp [calling, Cpu.esp]
  have hcs : (w.calling esp next).cpu.cs = 0x08 := rfl
  refine ⟨⟨s', hs'⟩, ?_, ?_, ?_, s, hs, by rw [hesp]; exact hlo, by rw [hesp]; exact hhi⟩
  · rw [hcs]
    decide
  · rw [hesp]
    exact Mem.load32_store32_same _ _ _
  · rw [hesp]
    have hkept := Mem.load32_congr (a := esp.toNat + 4) fun x h1 h2 =>
      Mem.store32_other (w.cpu.mem.store32 (esp.toNat + 4) next) w.current
        (show x < esp.toNat ∨ esp.toNat + 4 ≤ x by omega)
    exact hkept.trans (Mem.load32_store32_same _ _ _)

theorem step_calling {sym : Symbols} {w : World} (hapart : Apart w.stackOf) {esp : UInt32}
    (next : UInt32) {s : Stack} (hs : w.stackOf w.current = some s) (hlo : s.lo ≤ esp.toNat)
    (hhi : esp.toNat + 8 ≤ s.hi) : Step sym w (w.calling esp next) := by
  refine Step.work _ fun t x hne hown => ?_
  obtain ⟨s', hs', hx⟩ := hown
  have hstack := hapart.stack t s' w.current s hs' hs hne
  have hobject := hapart.object t s' w.current s hs' hs
  have hout : x < esp.toNat ∨ esp.toNat + 8 ≤ x := by omega
  exact (Mem.store32_other _ _ (by omega)).trans (Mem.store32_other _ _ (by omega))

end World

/-- The kernel's own task, with its object at `0x1000` and its stack at `0x2000`. -/
def kernelWorld : World where
  cpu := {
    regs := fun r => if r = .esp then 0x2200 else 0
    eflags := .ofWord 0x0202
    eip := 0x100000
    cs := 0x08
    ss := 0x10
    segs := fun _ => 0x10
    mem := fun _ => 0 }
  current := 0x1000
  stackOf := Function.update (fun _ => none) 0x1000 (some (kernelStack 0x2000))
  resume := fun _ => .kernelTask 0

theorem kernelWorld_alive : kernelWorld.stackOf 0x1000 = some (kernelStack 0x2000) := by
  simp [kernelWorld]

/-- Where the linker might put the code. -/
def symbols : Symbols := ⟨0x100100, 0x100200, 0x100300⟩

/-- A kernel task at `0x3000` and a user task at `0x5000` have been created. -/
def twoTasks : World :=
  let w := kernelWorld.add 0x3000 (kernelStack 0x4000)
    (createTask symbols kernelWorld.cpu.mem 0x3000 0x4000 0x100400) (.kernelTask 0x100400)
  w.add 0x5000 (kernelStack 0x6000) (createUserTask symbols w.cpu.mem 0x5000 0x6000 0x40000000)
    (.userTask 0x40000000 (0x6000 + TASK_STACK_SIZE))

theorem stackOf_twoTasks {t : UInt32} {s : Stack}
    (h : twoTasks.stackOf t = some s) : t = 0x1000 ∧ s = kernelStack 0x2000 ∨
      t = 0x3000 ∧ s = kernelStack 0x4000 ∨ t = 0x5000 ∧ s = kernelStack 0x6000 := by
  simp only [twoTasks, World.add, kernelWorld, Function.update_apply] at h
  split_ifs at h with h5 h3 h1
  · exact Or.inr (Or.inr ⟨h5, (Option.some.inj h).symm⟩)
  · exact Or.inr (Or.inl ⟨h3, (Option.some.inj h).symm⟩)
  · exact Or.inl ⟨h1, (Option.some.inj h).symm⟩

theorem apart_twoTasks : Apart twoTasks.stackOf := by
  refine ⟨?_, ?_, ?_, ?_⟩
  · intro t s h
    obtain ⟨rfl, rfl⟩ | ⟨rfl, rfl⟩ | ⟨rfl, rfl⟩ := stackOf_twoTasks h <;> decide
  · intro t s t' s' h h' hne
    obtain ⟨rfl, rfl⟩ | ⟨rfl, rfl⟩ | ⟨rfl, rfl⟩ := stackOf_twoTasks h <;>
    obtain ⟨rfl, rfl⟩ | ⟨rfl, rfl⟩ | ⟨rfl, rfl⟩ := stackOf_twoTasks h' <;>
    first | exact absurd rfl hne | decide
  · intro t s t' s' h h' hne
    obtain ⟨rfl, rfl⟩ | ⟨rfl, rfl⟩ | ⟨rfl, rfl⟩ := stackOf_twoTasks h <;>
    obtain ⟨rfl, rfl⟩ | ⟨rfl, rfl⟩ | ⟨rfl, rfl⟩ := stackOf_twoTasks h' <;>
    first | exact absurd rfl hne | decide
  · intro t s t' s' h h'
    obtain ⟨rfl, rfl⟩ | ⟨rfl, rfl⟩ | ⟨rfl, rfl⟩ := stackOf_twoTasks h <;>
    obtain ⟨rfl, rfl⟩ | ⟨rfl, rfl⟩ | ⟨rfl, rfl⟩ := stackOf_twoTasks h' <;>
    decide

theorem Apart.mono {stackOf stackOf' : UInt32 → Option Stack} (h : Apart stackOf')
    (hsub : ∀ t s, stackOf t = some s → stackOf' t = some s) : Apart stackOf :=
  ⟨fun t s hs => h.bound t s (hsub t s hs),
    fun t s t' s' hs hs' => h.stack t s t' s' (hsub t s hs) (hsub t' s' hs'),
    fun t s t' s' hs hs' => h.esp t s t' s' (hsub t s hs) (hsub t' s' hs'),
    fun t s t' s' hs hs' => h.object t s t' s' (hsub t s hs) (hsub t' s' hs')⟩

theorem update_of_none {stackOf : UInt32 → Option Stack} {t : UInt32} (h : stackOf t = none)
    (s : Option Stack) : ∀ x y, stackOf x = some y → Function.update stackOf t s x = some y := by
  intro x y hx
  have hne : x ≠ t := by
    rintro rfl
    rw [h] at hx
    cases hx
  rw [Function.update_of_ne hne]
  exact hx

theorem kernelWorld_new : kernelWorld.stackOf 0x3000 = none := by
  simp [kernelWorld]

theorem created_new :
    Function.update kernelWorld.stackOf 0x3000 (some (kernelStack 0x4000)) 0x5000 = none := by
  simp [kernelWorld]

theorem apart_created :
    Apart (Function.update kernelWorld.stackOf 0x3000 (some (kernelStack 0x4000))) :=
  Apart.mono apart_twoTasks (update_of_none created_new _)

theorem kernelWorld_start : kernelWorld.Start :=
  ⟨apart_created.mono (update_of_none kernelWorld_new _), kernelStack 0x2000, rfl⟩

theorem run_twoTasks : Run symbols kernelWorld twoTasks :=
  (Run.nil.snoc (.createTask 0x3000 0x4000 0x100400 kernelWorld_new apart_created)).snoc
    (.createUserTask 0x5000 0x6000 0x40000000 created_new apart_twoTasks)

/-- The kernel calls `switch_context` for the kernel task. -/
def toKernelTask : World := twoTasks.calling 0x2200 0x3000

/-- The kernel task calls it for the user task. -/
def toUserTask : World := (toKernelTask.switch symbols 0x3000 0x100005).calling 0x4200 0x5000

/-- The user task, in an interrupt, calls it for the kernel. -/
def toKernel : World := (toUserTask.switch symbols 0x5000 0x100405).calling 0x6200 0x1000

/-- All three calls of that run. -/
theorem run_switch_resumes_twoTasks :
    Resumed symbols (toKernelTask.switch symbols 0x3000 0x100005).cpu (.kernelTask 0x100400) ∧
    Resumed symbols (toUserTask.switch symbols 0x5000 0x100405).cpu
      (.userTask 0x40000000 (0x6000 + TASK_STACK_SIZE)) ∧
    Resumed symbols (toKernel.switch symbols 0x1000 0x100505).cpu
      (.call toKernelTask.cpu.regs toKernelTask.cpu.eflags 0x100005) := by
  have h1 : twoTasks.stackOf 0x1000 = some (kernelStack 0x2000) := by
    simp [twoTasks, World.add, kernelWorld]
  have h3 : twoTasks.stackOf 0x3000 = some (kernelStack 0x4000) := by
    simp [twoTasks, World.add]
  have h5 : twoTasks.stackOf 0x5000 = some (kernelStack 0x6000) := by
    simp [twoTasks, World.add]
  have hcall₁ : toKernelTask.Calls 0x3000 := World.calls_calling h1 h3 (by decide) (by decide)
  have hrun₁ : Run symbols kernelWorld toKernelTask :=
    run_twoTasks.snoc (World.step_calling apart_twoTasks 0x3000 h1 (by decide) (by decide))
  have hrun₁' := hrun₁.snoc (.switch 0x3000 0x100005 hcall₁)
  have hcall₂ : toUserTask.Calls 0x5000 := World.calls_calling h3 h5 (by decide) (by decide)
  have hrun₂ : Run symbols kernelWorld toUserTask :=
    hrun₁'.snoc (@World.step_calling symbols (toKernelTask.switch symbols 0x3000 0x100005)
      apart_twoTasks 0x4200 0x5000 _ h3 (by decide) (by decide))
  have hrun₂' := hrun₂.snoc (.switch 0x5000 0x100405 hcall₂)
  have hcall₃ : toKernel.Calls 0x1000 := World.calls_calling h5 h1 (by decide) (by decide)
  have hrun₃ : Run symbols kernelWorld toKernel :=
    hrun₂'.snoc (@World.step_calling symbols (toUserTask.switch symbols 0x5000 0x100405)
      apart_twoTasks 0x6200 0x1000 _ h5 (by decide) (by decide))
  exact ⟨run_switch_resumes symbols kernelWorld kernelWorld_start _ hrun₁ 0x3000 0x100005 hcall₁,
    run_switch_resumes symbols kernelWorld kernelWorld_start _ hrun₂ 0x5000 0x100405 hcall₂,
    run_switch_resumes symbols kernelWorld kernelWorld_start _ hrun₃ 0x1000 0x100505 hcall₃⟩

end NosmeriOs.ContextSwitch
