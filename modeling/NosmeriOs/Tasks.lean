import NosmeriOs.HeapRun
import NosmeriOs.Vfs
import NosmeriOs.Vmm

/-! # Tasks (`task/task.cpp`, `drivers/timer.cpp`)

Tasks form a circular list, which `schedule` walks from the current task on.

* `Task` and `File` objects are records at their pointers, beside the heap that hands out the
  pointers: their bytes are payload, which the allocator leaves alone (`run_payloads`).
* The saved stack pointer and the initial frames on a new stack are only read by
  `switch_context`; they are left out, and so is the stack switch itself.
* A function that stops the machine returns `none` (see `Vmm`).
* The heap is the memory at its addresses, whichever directory is loaded: page faults on heap
  addresses, and what happens to the tables behind it, are the subject of `VmmHeap`.
* `alive` lists the tasks created and not yet removed.  No function reads it but for the bound
  of its loops over the list. -/

namespace NosmeriOs.Tasks

open Vmm Vfs

/-! ### Data -/

def MAX_FD : ℕ := 16
def TASK_STACK_SIZE : UInt32 := 1024
def USER_STACK_TOP : UInt32 := 0xBFFFF000
def USER_STACK_BOTTOM : UInt32 := USER_STACK_TOP - 4096
def USER_CODE_START : UInt32 := 0x40000000
def TIMER_FREQ : UInt32 := 100

inductive TaskState where
  | ready
  | running
  | sleeping
  | dead
deriving DecidableEq

inductive FileType where
  | unused
  | stdin
  | stdout
  | stderr
  | regular
  | pipe
deriving DecidableEq

inductive FileOps where
  | stdinOps
  | stdoutOps
  | stderrOps
  | vfsFileOps
deriving DecidableEq

structure File where
  type : FileType
  ops : FileOps
  node : VfsNode
  offset : UInt32
  flags : UInt32
  refCount : ℤ

structure Task where
  id : UInt32
  kernelStackBottom : ℕ
  userStackBottom : UInt32
  kernelStackTop : ℕ
  cr3 : UInt32
  isUser : Bool
  state : TaskState
  wakeTick : UInt32
  next : ℕ
  fdTable : ℕ → ℕ
  cwd : VfsNode

/-- `sizeof(File)`: type, operations, node, offset, flags and reference count. -/
def FILE_SIZE : UInt32 :=
  UInt32.ofNat (Heap.sizeofStruct [(4, 4), (4, 4), (48, 4), (4, 4), (4, 4), (4, 4)])

/-- `sizeof(Task)`, with `esp` after the id. -/
def TASK_SIZE : UInt32 :=
  UInt32.ofNat (Heap.sizeofStruct [(4, 4), (4, 4), (4, 4), (4, 4), (4, 4), (4, 4), (1, 1), (4, 4),
    (4, 4), (4, 4), (4 * MAX_FD, 4), (48, 4)])

structure Kernel where
  heap : Heap.State
  machine : Machine
  esp0 : ℕ
  timerTicks : UInt32
  tasks : ℕ → Task
  files : ℕ → File
  currentTask : ℕ
  nextPid : UInt32
  vfsRoot : VfsNode
  alive : List ℕ

namespace Kernel

/-- The task that `current_task` points to. -/
def current (k : Kernel) : Task := k.tasks k.currentTask

def setTask (k : Kernel) (t : ℕ) (task : Task) : Kernel :=
  { k with tasks := Function.update k.tasks t task }

def setState (k : Kernel) (t : ℕ) (s : TaskState) : Kernel :=
  k.setTask t { k.tasks t with state := s }

def setNext (k : Kernel) (t next : ℕ) : Kernel := k.setTask t { k.tasks t with next := next }

def freePage (k : Kernel) (ptr : UInt32) : Kernel := { k with machine := k.machine.freePage ptr }

def kfree (k : Kernel) (ptr : ℕ) : Kernel := { k with heap := Heap.kfree k.heap ptr }

/-! ### Allocation -/

section functions
variable (img : Image)

/-- The bytes of a frame. -/
def frameBytes (m : Machine) (f : ℕ) : ℕ → UInt8 := fun x =>
  Bytes.leByte (m.frames f (x / 4)) (x % 4)

/-- Where `kmalloc` gets its pages: `pmm_alloc_page` and `vmm_map_page`. -/
def growHeap : Heap.PageSource (Option Machine)
  | _, none => (none, none)
  | addr, some m =>
      let (heapPhysAddr, m) := m.allocPage
      if heapPhysAddr = 0 then (none, some m)
      else
        match vmmMapPage img m (UInt32.ofNat addr) heapPhysAddr (PAGE_PRESENT ||| PAGE_RW) with
        | none => (none, none)
        | some m => (some (frameBytes m (frameOf heapPhysAddr)), some m)

def kmalloc (k : Kernel) (bytes : UInt32) : Option (ℕ × Kernel) :=
  match Heap.kmalloc (growHeap img) bytes k.heap (some k.machine) with
  | (ptr, heap, some machine) => some (ptr, { k with heap := heap, machine := machine })
  | (_, _, none) => none

/-! ### `init_task_fds` -/

/-- A new `File`; the code does not check that there is memory for it, so that it may be written
to address `0`. -/
def createFile (k : Kernel) (type : FileType) (ops : FileOps) : Option (ℕ × Kernel) := do
  let (f, k) ← k.kmalloc img FILE_SIZE
  some (f, { k with
    files := Function.update k.files f
      { k.files f with type := type, ops := ops, offset := 0, flags := 0, refCount := 1 } })

def createStdinFile (k : Kernel) : Option (ℕ × Kernel) := k.createFile img .stdin .stdinOps
def createStdoutFile (k : Kernel) : Option (ℕ × Kernel) := k.createFile img .stdout .stdoutOps
def createStderrFile (k : Kernel) : Option (ℕ × Kernel) := k.createFile img .stderr .stderrOps

def setFd (k : Kernel) (t fd f : ℕ) : Kernel :=
  k.setTask t { k.tasks t with fdTable := Function.update (k.tasks t).fdTable fd f }

def initTaskFds (k : Kernel) (t : ℕ) : Option Kernel := do
  let k := k.setTask t { k.tasks t with fdTable := fun _ => 0 }
  let (f, k) ← k.createStdinFile img
  let k := k.setFd t 0 f
  let (f, k) ← k.createStdoutFile img
  let k := k.setFd t 1 f
  let (f, k) ← k.createStderrFile img
  some (k.setFd t 2 f)

/-! ### Creation -/

/-- What `create_task` and `create_user_task` do with the new object: the next pid, `TASK_READY`,
descriptors, working directory, and a place in the list after the current task. -/
def addTask (k : Kernel) (newTask kernelStackMem : ℕ) (userStackMem cr3 : UInt32) (isUser : Bool) :
    Option Kernel := do
  let k := k.setTask newTask { k.tasks newTask with
    kernelStackBottom := kernelStackMem
    kernelStackTop := (kernelStackMem + TASK_STACK_SIZE.toNat) % 2 ^ 32
    userStackBottom := userStackMem
    cr3 := cr3
    isUser := isUser
    id := k.nextPid
    state := .ready
    wakeTick := 0 }
  let k := { k with nextPid := k.nextPid + 1 }
  let k ← k.initTaskFds img newTask
  let k := k.setTask newTask { k.tasks newTask with
    cwd := if k.currentTask ≠ 0 then k.current.cwd else k.vfsRoot }
  let k := k.setNext newTask k.current.next
  let k := k.setNext k.currentTask newTask
  some { k with alive := newTask :: k.alive }

/-- `create_task`: the new task, `0` if there is no memory. -/
def createTask (k : Kernel) : Option (ℕ × Kernel) := do
  let (stackMem, k) ← k.kmalloc img TASK_STACK_SIZE
  if stackMem = 0 then some (0, k)
  else
    let (newTask, k) ← k.kmalloc img TASK_SIZE
    if newTask = 0 then some (0, k.kfree stackMem)
    else
      let k ← k.addTask img newTask stackMem 0 (k.tasks img.kernelTask).cr3 false
      some (newTask, k)

/-- The address space of a new user task: a directory with the user stack in it.  It is loaded
while the stack is mapped. -/
def newAddressSpace (k : Kernel) (userStackMem : UInt32) : Option (UInt32 × Machine) := do
  let (cr3, m) ← vmmCreatePageDirectory img k.machine
  let m ← vmmSwitchPageDirectory m cr3
  let m ← vmmMapPage img m USER_STACK_BOTTOM userStackMem (PAGE_USER ||| PAGE_RW ||| PAGE_PRESENT)
  let m ← vmmSwitchPageDirectory m k.current.cr3
  some (cr3, m)

def createUserTask (k : Kernel) : Option (ℕ × Kernel) := do
  let (kernelStackMem, k) ← k.kmalloc img TASK_STACK_SIZE
  let (userStackMem, m) := k.machine.allocPage
  let k := { k with machine := m }
  if kernelStackMem = 0 ∨ userStackMem = 0 then
    let k := if kernelStackMem ≠ 0 then k.kfree kernelStackMem else k
    let k := if userStackMem ≠ 0 then k.freePage userStackMem else k
    some (0, k)
  else
    let (newTask, k) ← k.kmalloc img TASK_SIZE
    if newTask = 0 then some (0, (k.kfree kernelStackMem).freePage userStackMem)
    else
      let (cr3, m) ← k.newAddressSpace img userStackMem
      let k := { k with machine := m }
      let k ← k.addTask img newTask kernelStackMem userStackMem cr3 true
      some (newTask, k)

/-- What `vfs_resolve_path` and `vfs_read` give for a path: the size in the node, and the bytes
stored in the buffer.  These are all of them, at most 30 blocks, or none. -/
structure Program where
  size : UInt32
  data : List UInt8
  le : data = [] ∨ data.length = size.toNat ∧ size.toNat ≤ 30 * 512

/-- The loop that maps the code pages; it does not check that there are pages. -/
def mapCode (m : Machine) (pageCnt : ℕ) : Option Machine :=
  (List.range pageCnt).foldlM (fun (m : Machine) i =>
    let (frame, m) := m.allocPage
    vmmMapPage img m (USER_CODE_START + UInt32.ofNat i * 4096) frame
      (PAGE_USER ||| PAGE_RW ||| PAGE_PRESENT)) m

/-- One byte of a frame. -/
def storeByte (m : Machine) (f x : ℕ) (b : UInt8) : Machine :=
  m.setWord f (x / 4) (Bytes.ofLe fun j =>
    if j = x % 4 then b else Bytes.leByte (m.frames f (x / 4)) j)

/-- `memcpy` to the user's code; `src` are the bytes of the buffer.  The frame that the processor
found for a page is kept until the end of the page, whatever is written to the tables. -/
def copyLoop (m : Machine) (src : ℕ → UInt8) (size : ℕ) : Option (Machine × ℕ) :=
  (List.range size).foldlM (fun ((m, f) : Machine × ℕ) i =>
    let addr := USER_CODE_START + UInt32.ofNat i
    (if addr.toNat % 4096 = 0 then m.translate addr else some f).map fun f =>
      (storeByte m f (addr.toNat % 4096) (src i), f)) (m, 0)

def copyCode (m : Machine) (src : ℕ → UInt8) (size : ℕ) : Option Machine :=
  (copyLoop m src size).map Prod.fst

/-- The bytes of the buffer at `buf` after `vfs_read`. -/
def bufferBytes (k : Kernel) (file : Program) (buf i : ℕ) : UInt8 :=
  file.data.getD i (k.heap.mem (buf + i))

/-- `create_user_process`, for the file found under the path, if any. -/
def createUserProcess (k : Kernel) (file : Option Program) : Option (ℕ × Kernel) :=
  match file with
  | none => some (0, k)
  | some file => do
      let (buf, k) ← k.kmalloc img file.size
      if buf = 0 then some (0, k)
      else
        let (newTask, k) ← k.createUserTask img
        if newTask = 0 then some (0, k.kfree buf)
        else
          let k := k.setTask newTask { k.tasks newTask with
            state := .sleeping, wakeTick := 0xFFFFFFFF }
          let m ← vmmSwitchPageDirectory k.machine (k.tasks newTask).cr3
          let m ← mapCode img m ((file.size + 4096 - 1) / 4096).toNat
          let m ← copyCode m (k.bufferBytes file buf) file.size.toNat
          let k := k.kfree buf
          let m ← vmmSwitchPageDirectory m k.current.cr3
          let k := { k with machine := m }
          some (newTask, k.setTask newTask { k.tasks newTask with
            state := .ready, wakeTick := 0 })

/-- `init_tasking`. -/
def initTasking (k : Kernel) : Option Kernel := do
  let t := img.kernelTask
  let k := k.setTask t { k.tasks t with
    id := k.nextPid
    kernelStackBottom := 0
    cr3 := vmmGetKernelPageDirectory img
    isUser := false
    state := .running
    wakeTick := 0 }
  let k := { k with nextPid := k.nextPid + 1 }
  let k ← k.initTaskFds img t
  let k := k.setNext t t
  let k := k.setTask t { k.tasks t with cwd := k.vfsRoot }
  some { k with currentTask := t, alive := [t] }

/-! ### `kernel_main` -/

/-- `init_heap`: one page, whether there is one or not. -/
def initHeap (k : Kernel) : Option Kernel := do
  let (heapPhysAddr, m) := k.machine.allocPage
  let m ← vmmMapPage img m (UInt32.ofNat Heap.HEAP_START) heapPhysAddr (PAGE_PRESENT ||| PAGE_RW)
  some { k with
    machine := m
    heap := Heap.initHeap
      (Heap.mapPage k.heap.mem Heap.HEAP_START (frameBytes m (frameOf heapPhysAddr))) }

/-- `kernel_main` up to `init_tasking`, on a machine with any contents. -/
def boot (magic : UInt32) (mbi : Pmm.MultibootInfo) (k : Kernel) : Option Kernel := do
  let m := { k.machine with
    pages := Pmm.initPmm img.toKernelImage magic mbi
    outOfMemory := false
    highDirectory := false }
  let k := { k with
    machine := initVmm img m
    timerTicks := 0
    currentTask := 0
    nextPid := 0
    alive := [] }
  let k ← k.initHeap img
  k.initTasking img

end functions

/-! ### Removal -/

/-- `kill_task` takes the task `t` after `prev` out of the list and frees what it holds. -/
def remove (k : Kernel) (t prev : ℕ) : Kernel :=
  let k := k.setNext prev (k.tasks t).next
  let k := k.kfree (k.tasks t).kernelStackBottom
  let k :=
    if (k.tasks t).isUser then
      (k.freePage (k.tasks t).userStackBottom).freePage (k.tasks t).cr3
    else k
  { k.kfree t with alive := k.alive.erase t }

/-- The loop of `kill_task`. -/
def killLoop (k : Kernel) (pid : UInt32) : ℕ → ℕ → ℕ → ℤ × Kernel
  | 0, _, _ => (-1, k)
  | fuel + 1, t, prev =>
      if (k.tasks t).id = pid then (pid.toInt32.toInt, k.remove t prev)
      else if (k.tasks t).next = k.currentTask then (-1, k)
      else killLoop k pid fuel (k.tasks t).next t

/-- `kill_task`: the pid as an `int`, or `-1`. -/
def killTask (k : Kernel) (pid : UInt32) : ℤ × Kernel :=
  if k.currentTask = 0 then (-1, k)
  else if pid = 0 then (-1, k)
  else killLoop k pid k.alive.length k.current.next k.currentTask

/-! ### Scheduling -/

/-- The search of `schedule`, which removes the dead tasks that it meets. -/
def scheduleLoop (prev : ℕ) : ℕ → Kernel → ℕ → ℕ × Kernel
  | 0, k, next => (next, k)
  | fuel + 1, k, next =>
      if (k.tasks next).state ≠ .ready ∧ next ≠ prev then
        if (k.tasks next).state = .dead then
          let temp := (k.tasks next).next
          scheduleLoop prev fuel (k.killTask (k.tasks next).id).2 temp
        else scheduleLoop prev fuel k (k.tasks next).next
      else (next, k)

/-- `schedule` switches from `prev` to `next`. -/
def switchTo (k : Kernel) (prev next : ℕ) : Option Kernel := do
  let k := if (k.tasks prev).state = .running then k.setState prev .ready else k
  let k := k.setState next .running
  let k := if (k.tasks next).isUser then { k with esp0 := (k.tasks next).kernelStackTop } else k
  let m ←
    if (k.tasks prev).cr3 ≠ (k.tasks next).cr3 then
      vmmSwitchPageDirectory k.machine (k.tasks next).cr3
    else some k.machine
  some { k with machine := m, currentTask := next }

def schedule (k : Kernel) : Option Kernel :=
  if k.currentTask = 0 ∨ k.current.next = k.currentTask then some k
  else
    let prev := k.currentTask
    let (next, k) := scheduleLoop prev k.alive.length k k.current.next
    if (k.tasks next).state ≠ .ready then some k else k.switchTo prev next

/-- `exit_task` up to its endless loop. -/
def exitTask (k : Kernel) : Option Kernel := (k.setState k.currentTask .dead).schedule

/-- The ticks that `task_sleep` waits. -/
def sleepTicks (ms : UInt32) : UInt32 :=
  let ticks := ms * TIMER_FREQ / 1000
  if 0 < ms ∧ ticks = 0 then 1 else ticks

/-- `task_sleep` up to the return of the first `schedule`: from then on it calls `schedule` again
while the task still sleeps. -/
def taskSleep (k : Kernel) (ms : UInt32) : Option Kernel :=
  if k.currentTask = 0 then some k
  else
    (k.setTask k.currentTask { k.current with
      wakeTick := k.timerTicks + sleepTicks ms, state := .sleeping }).schedule

/-- `task_timer_tick` at one task. -/
def wake (k : Kernel) (t : ℕ) : Kernel :=
  if (k.tasks t).state = .sleeping ∧ (k.tasks t).wakeTick ≤ k.timerTicks then k.setState t .ready
  else k

/-- The loop of `task_timer_tick`. -/
def tickLoop : ℕ → Kernel → ℕ → Kernel
  | 0, k, _ => k
  | fuel + 1, k, t =>
      let k := k.wake t
      let t := (k.tasks t).next
      if t = k.currentTask then k else tickLoop fuel k t

def taskTimerTick (k : Kernel) : Kernel :=
  if k.currentTask = 0 then k else tickLoop k.alive.length k k.currentTask

/-- `timer_handler`. -/
def timerHandler (k : Kernel) : Option Kernel :=
  ({ k with timerTicks := k.timerTicks + 1 }).taskTimerTick.schedule

end Kernel

end NosmeriOs.Tasks
