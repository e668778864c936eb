import NosmeriOs.TaskList
import NosmeriOs.TaskProgress

/-! # Runs of the tasks

Calls follow each other in any order, each completed; a call that stops the machine ends no run.

* `System.run`: the runs.  `System.step_cases` says what a step can do: a task is created
  (`Created`), or none is (`Persists`).
* `run_consistent`: the list of tasks is consistent in every state that a run reaches.
* `run_ring`: the ring in these states, the pids in it, and what `kill_task` does to it. -/

namespace NosmeriOs.Tasks

open Vmm Vfs Heap Rings

/-- The kernel, the heap blocks that its other parts hold, and the number of tasks created since
`init_tasking`. -/
structure System where
  kernel : Kernel
  buffers : List ℕ
  created : ℕ

inductive Op where
  | createTask
  | createUserTask
  | createUserProcess (file : Option Kernel.Program)
  | killTask (pid : UInt32)
  | exitTask
  | taskSleep (ms : UInt32)
  | taskTimerTick
  | timerHandler
  /-- Also `task_yield` and `SYS_YIELD`. -/
  | schedule
  | pageFault (addr : UInt32)
  | kmalloc (bytes : UInt32)
  /-- `kfree` of the buffer at a position. -/
  | kfree (i : ℕ)

namespace System

variable (img : Image)

def withKernel (s : System) (k : Kernel) : System := { s with kernel := k }

/-- The result of a creation; `0` is none. -/
def withTask (s : System) (r : ℕ × Kernel) : System :=
  { s with kernel := r.2, created := if r.1 = 0 then s.created else s.created + 1 }

def withBuffer (s : System) (r : ℕ × Kernel) : System :=
  { s with kernel := r.2, buffers := if r.1 = 0 then s.buffers else r.1 :: s.buffers }

def step (s : System) : Op → Option System
  | .createTask => (s.kernel.createTask img).map s.withTask
  | .createUserTask => (s.kernel.createUserTask img).map s.withTask
  | .createUserProcess file => (s.kernel.createUserProcess img file).map s.withTask
  | .killTask pid => some (s.withKernel (s.kernel.killTask pid).2)
  | .exitTask => s.kernel.exitTask.map s.withKernel
  | .taskSleep ms => (s.kernel.taskSleep ms).map s.withKernel
  | .taskTimerTick => some (s.withKernel s.kernel.taskTimerTick)
  | .timerHandler => s.kernel.timerHandler.map s.withKernel
  | .schedule => s.kernel.schedule.map s.withKernel
  | .pageFault addr => (pageFaultHandler img s.kernel.machine addr).map fun m =>
      s.withKernel { s.kernel with machine := m }
  | .kmalloc bytes => (s.kernel.kmalloc img bytes).map s.withBuffer
  | .kfree i =>
      match s.buffers[i]? with
      | none => some s
      | some p => some { s with kernel := s.kernel.kfree p, buffers := s.buffers.eraseIdx i }

def run (s : System) (ops : List Op) : Option System := ops.foldlM (step img) s

/-- After `init_tasking`. -/
def start (k : Kernel) : System := ⟨k, [], 0⟩

end System

namespace Kernel

variable {img : Image} {k k' : Kernel} {buffers l : List ℕ}

/-- What a task keeps as long as it is alive. -/
structure SameTask (x y : Task) : Prop where
  id : y.id = x.id
  kernelStackTop : y.kernelStackTop = x.kernelStackTop
  userStackBottom : y.userStackBottom = x.userStackBottom
  cr3 : y.cr3 = x.cr3
  isUser : y.isUser = x.isUser

theorem SameTask.refl (x : Task) : SameTask x x := ⟨rfl, rfl, rfl, rfl, rfl⟩

theorem SameTask.trans {x y z : Task} (h : SameTask x y) (h' : SameTask y z) : SameTask x z :=
  ⟨h'.id.trans h.id, h'.kernelStackTop.trans h.kernelStackTop,
    h'.userStackBottom.trans h.userStackBottom, h'.cr3.trans h.cr3, h'.isUser.trans h.isUser⟩

/-- No task is created; the remaining ones are what they were. -/
structure Persists (k k' : Kernel) : Prop where
  alive : k'.alive.Sublist k.alive
  nextPid : k'.nextPid = k.nextPid
  tasks : ∀ t, SameTask (k.tasks t) (k'.tasks t)

theorem Persists.refl (k : Kernel) : Persists k k := ⟨List.Sublist.refl _, rfl, fun _ => .refl _⟩

theorem Persists.trans {k₁ k₂ k₃ : Kernel} (h : Persists k₁ k₂) (h' : Persists k₂ k₃) :
    Persists k₁ k₃ :=
  ⟨h'.alive.trans h.alive, h'.nextPid.trans h.nextPid, fun t => (h.tasks t).trans (h'.tasks t)⟩

theorem SameTasks.persists (h : SameTasks k k') : Persists k k' :=
  ⟨h.alive ▸ List.Sublist.refl _, h.nextPid, fun t => by rw [h.tasks]; exact .refl _⟩

theorem remove_persists (k : Kernel) (t prev : ℕ) : Persists k (k.remove t prev) := by
  rw [remove_eq]
  refine ⟨List.erase_sublist, rfl, fun x => ?_⟩
  dsimp only
  rw [Function.update_apply]
  split_ifs with hx
  · rw [hx]
    exact ⟨rfl, rfl, rfl, rfl, rfl⟩
  · exact .refl _

theorem killTask_persists (h : Consistent img k buffers l) (pid : UInt32) :
    Persists k (k.killTask pid).2 := by
  obtain ⟨xs, t, ys, _, _, _, _, he⟩ | ⟨_, he⟩ := killTask_cases h pid
  · rw [he]
    exact remove_persists k t _
  · rw [he]
    exact .refl k

theorem Kills.persists (hk : Kills k k') (h : Consistent img k buffers l) : Persists k k' :=
  hk.induction h (fun _ _ pid hc hp => hp.trans (killTask_persists hc pid)) (.refl k)

theorem switchTo_persists {prev next : ℕ} (h : k.switchTo prev next = some k') :
    Persists k k' := by
  rw [switchTo_eq h]
  exact ⟨List.Sublist.refl _, rfl, fun _ => ⟨rfl, rfl, rfl, rfl, rfl⟩⟩

theorem schedule_persists (hk : k.schedule = some k') (h : Consistent img k buffers l) :
    Persists k k' := by
  obtain ⟨k₁, l₁, hkills, _, _, rfl | ⟨next, _, _, hs⟩⟩ := schedule_cases hk h
  · exact hkills.persists h
  · exact (hkills.persists h).trans (switchTo_persists hs)

/-- `schedule` ends if every task has a directory. -/
theorem exists_schedule (h : Consistent img k buffers l)
    (hcr : ∀ t ∈ k.alive, (k.tasks t).cr3 ≠ 0) : ∃ k', k.schedule = some k' := by
  obtain ⟨k₁, _, hkills, _, _, he | ⟨next, hn, _, he⟩⟩ := schedule_eq h
  · exact ⟨k₁, he⟩
  · have hp := hkills.persists h
    rw [he, switchTo_def, if_neg]
    · exact ⟨_, rfl⟩
    · rintro ⟨_, h0⟩
      exact hcr next (hp.alive.subset hn) ((hp.tasks next).cr3.symm.trans h0)

theorem taskTimerTick_persists (h : Consistent img k buffers l) :
    Persists k k.taskTimerTick := by
  rw [taskTimerTick_eq h]
  refine ⟨List.Sublist.refl _, rfl, fun t => ?_⟩
  dsimp only
  unfold woken
  split_ifs <;> exact ⟨rfl, rfl, rfl, rfl, rfl⟩

/-- The current task stops: `exit_task` and `task_sleep` before they call `schedule`. -/
def stop (k : Kernel) (st : TaskState) (wakeTick : UInt32) : Kernel :=
  k.setTask k.currentTask { k.current with wakeTick := wakeTick, state := st }

theorem exitTask_eq (k : Kernel) : k.exitTask = (k.stop .dead k.current.wakeTick).schedule := rfl

theorem taskSleep_eq (h : Consistent img k buffers l) (ms : UInt32) : k.taskSleep ms =
    (k.stop .sleeping (k.timerTicks + sleepTicks ms)).schedule :=
  if_neg h.current_ne_zero

theorem tasks_stop (k : Kernel) (st : TaskState) (wakeTick : UInt32) (t : ℕ) :
    (k.stop st wakeTick).tasks t =
      if t = k.currentTask then { k.current with wakeTick := wakeTick, state := st }
      else k.tasks t :=
  tasks_setTask ..

theorem stop_persists (k : Kernel) (st : TaskState) (wakeTick : UInt32) :
    Persists k (k.stop st wakeTick) := by
  refine ⟨List.Sublist.refl _, rfl, fun t => ?_⟩
  rw [tasks_stop]
  split_ifs with ht
  · rw [ht]
    exact ⟨rfl, rfl, rfl, rfl, rfl⟩
  · exact .refl _

theorem Consistent.stop (h : Consistent img k buffers l) (st : TaskState) (wakeTick : UInt32) :
    Consistent img (k.stop st wakeTick) buffers l := by
  refine h.congr ?_ ?_ (fun t => ?_) h.owns
  · rfl
  · rfl
  · rw [tasks_stop]
    split_ifs with ht
    · rw [ht]
      exact ⟨rfl, rfl, rfl⟩
    · exact ⟨rfl, rfl, rfl⟩

theorem Consistent.exitTask (hk : k.exitTask = some k') (h : Consistent img k buffers l) :
    (∃ l', Consistent img k' buffers l') ∧ Persists k k' := by
  have h' := h.stop .dead k.current.wakeTick
  exact ⟨h'.schedule hk, (stop_persists ..).trans (schedule_persists hk h')⟩

theorem Consistent.taskSleep {ms : UInt32} (hk : k.taskSleep ms = some k')
    (h : Consistent img k buffers l) : (∃ l', Consistent img k' buffers l') ∧ Persists k k' := by
  rw [taskSleep_eq h] at hk
  have h' := h.stop .sleeping (k.timerTicks + sleepTicks ms)
  exact ⟨h'.schedule hk, (stop_persists ..).trans (schedule_persists hk h')⟩

theorem Consistent.tick (h : Consistent img k buffers l) :
    Consistent img { k with timerTicks := k.timerTicks + 1 } buffers l ∧
      Persists k { k with timerTicks := k.timerTicks + 1 } := by
  refine ⟨h.congr ?_ ?_ ?_ ?_, List.Sublist.refl _, rfl, fun _ => .refl _⟩
  · rfl
  · rfl
  · exact fun _ => ⟨rfl, rfl, rfl⟩
  · exact h.owns

theorem Consistent.timerHandler (hk : k.timerHandler = some k')
    (h : Consistent img k buffers l) : (∃ l', Consistent img k' buffers l') ∧ Persists k k' := by
  obtain ⟨h', hp⟩ := h.tick
  have h'' := h'.taskTimerTick
  exact ⟨h''.schedule hk, hp.trans ((taskTimerTick_persists h').trans (schedule_persists hk h''))⟩

end Kernel

/-! ### Steps -/

namespace System

variable {img : Image} {s s' : System} {l : List ℕ} {op : Op}

/-- A step creates a task or none; the list stays consistent. -/
inductive Outcome (img : Image) (s s' : System) (l' : List ℕ) : Prop
  | persists : s'.created = s.created → s.kernel.Persists s'.kernel →
      s'.kernel.Consistent img s'.buffers l' → Outcome img s s' l'
  | created (t : ℕ) : t ∉ s.kernel.alive → s'.created = s.created + 1 →
      s.kernel.Created s'.kernel t → s'.kernel.Consistent img s'.buffers l' → Outcome img s s' l'

section creation
variable {k : Kernel} {t kernelStackMem : ℕ}

theorem outcome_of_none (hc : s.kernel.Consistent img s.buffers l) (hs : s.kernel.SameTasks k)
    (ho : Owns k.heap (s.kernel.blocks img ++ s.buffers)) :
    ∃ l', Outcome img s (s.withTask (0, k)) l' := by
  exact ⟨l, .persists rfl hs.persists (hc.sameTasks hs ho)⟩

theorem outcome_of_created (hc : s.kernel.Consistent img s.buffers l) (ht : t ≠ 0)
    (hcr : s.kernel.Created k t) (hstack : (k.tasks t).kernelStackBottom = kernelStackMem)
    (ho : Owns k.heap (t :: kernelStackMem :: (s.kernel.blocks img ++ s.buffers))) :
    ∃ l', Outcome img s (s.withTask (t, k)) l' := by
  obtain ⟨hnew, hc'⟩ := hc.created hcr hstack ho
  refine ⟨t :: l, .created t hnew ?_ hcr hc'⟩
  exact if_neg ht

end creation

theorem step_cases (h : s.step img op = some s') (hc : s.kernel.Consistent img s.buffers l) :
    ∃ l', Outcome img s s' l' := by
  have hheld := hc.currentHeld
  cases op with
  | createTask =>
      obtain ⟨⟨t, k⟩, hk, rfl⟩ := Option.map_eq_some_iff.1 h
      obtain ⟨_, ⟨rfl, hs, ho⟩ | ⟨ht, hcr, kstack, hh, ho⟩⟩ :=
        Kernel.createTask_cases hk hheld hc.owns
      · exact outcome_of_none hc hs ho
      · exact outcome_of_created hc ht hcr hh.kernelStack ho.left
  | createUserTask =>
      obtain ⟨⟨t, k⟩, hk, rfl⟩ := Option.map_eq_some_iff.1 h
      obtain ⟨rfl, hs, ho, _⟩ | ⟨ht, hcr, kstack, stack, cr3, hh, ho, _⟩ :=
        Kernel.createUserTask_cases hk hheld hc.owns
      · exact outcome_of_none hc hs ho
      · exact outcome_of_created hc ht hcr hh.kernelStack ho.left
  | createUserProcess file =>
      obtain ⟨⟨t, k⟩, hk, rfl⟩ := Option.map_eq_some_iff.1 h
      obtain ⟨rfl, hs, ho, _⟩ | ⟨ht, hcr, kstack, stack, cr3, size, m, hh, ho, _⟩ :=
        Kernel.createUserProcess_cases hk hheld hc.owns
      · exact outcome_of_none hc hs ho
      · exact outcome_of_created hc ht hcr hh.kernelStack ho.left
  | killTask pid =>
      cases h
      obtain ⟨l', hc'⟩ := hc.killTask pid
      exact ⟨l', .persists rfl (Kernel.killTask_persists hc pid) hc'⟩
  | exitTask =>
      obtain ⟨k, hk, rfl⟩ := Option.map_eq_some_iff.1 h
      obtain ⟨⟨l', hc'⟩, hp⟩ := hc.exitTask hk
      exact ⟨l', .persists rfl hp hc'⟩
  | taskSleep ms =>
      obtain ⟨k, hk, rfl⟩ := Option.map_eq_some_iff.1 h
      obtain ⟨⟨l', hc'⟩, hp⟩ := hc.taskSleep hk
      exact ⟨l', .persists rfl hp hc'⟩
  | taskTimerTick =>
      cases h
      exact ⟨l, .persists rfl (Kernel.taskTimerTick_persists hc) hc.taskTimerTick⟩
  | timerHandler =>
      obtain ⟨k, hk, rfl⟩ := Option.map_eq_some_iff.1 h
      obtain ⟨⟨l', hc'⟩, hp⟩ := hc.timerHandler hk
      exact ⟨l', .persists rfl hp hc'⟩
  | schedule =>
      obtain ⟨k, hk, rfl⟩ := Option.map_eq_some_iff.1 h
      obtain ⟨l', hc'⟩ := hc.schedule hk
      exact ⟨l', .persists rfl (Kernel.schedule_persists hk hc) hc'⟩
  | pageFault addr =>
      obtain ⟨m, _, rfl⟩ := Option.map_eq_some_iff.1 h
      have hs : s.kernel.SameTasks { s.kernel with machine := m } := ⟨rfl, rfl, rfl, rfl, rfl, rfl⟩
      exact ⟨l, .persists rfl hs.persists (hc.sameTasks hs hc.owns)⟩
  | kmalloc bytes =>
      obtain ⟨⟨p, k⟩, hk, rfl⟩ := Option.map_eq_some_iff.1 h
      obtain ⟨hs, hc'⟩ := hc.kmalloc hk
      exact ⟨l, .persists rfl hs.persists hc'⟩
  | kfree i =>
      simp only [step] at h
      cases hi : s.buffers[i]? with
      | none =>
          rw [hi] at h
          cases h
          exact ⟨l, .persists rfl (.refl _) hc⟩
      | some p =>
          rw [hi] at h
          cases h
          have hs : s.kernel.SameTasks (s.kernel.kfree p) := ⟨rfl, rfl, rfl, rfl, rfl, rfl⟩
          obtain ⟨hlt, rfl⟩ := List.getElem?_eq_some_iff.1 hi
          exact ⟨l, .persists rfl hs.persists
            (hc.kfree (List.getElem_cons_eraseIdx_perm hlt).symm)⟩

/-! ### Runs -/

theorem run_cons {ops : List Op} (h : s.step img op = some s') :
    s.run img (op :: ops) = s'.run img ops := by
  unfold run
  rw [List.foldlM_cons, h, Option.bind_eq_bind, Option.bind_some]

theorem run_append {ops : List Op} (h : s.run img ops = some s') (ops' : List Op) :
    s.run img (ops ++ ops') = s'.run img ops' := by
  unfold run at h ⊢
  rw [List.foldlM_append, h, Option.bind_eq_bind, Option.bind_some]

@[simp] theorem run_nil : s.run img [] = some s := rfl

/-- What every step preserves holds at the end of a run. -/
theorem run_induction {P : System → Prop} {ops : List Op}
    (hP : ∀ s op s', P s → s.step img op = some s' → P s') (h0 : P s)
    (h : s.run img ops = some s') : P s' :=
  foldlM_induction (fun s op _ => hP s op) h0 h

/-- The pids are the numbers of the creations, until they run over. -/
structure Pids (k : Kernel) (n : ℕ) : Prop where
  next : k.nextPid = UInt32.ofNat (n + 1)
  le : n < 2 ^ 32 → ∀ t ∈ k.alive, (k.tasks t).id.toNat ≤ n
  nodup : n < 2 ^ 32 → (k.alive.map fun t => (k.tasks t).id).Nodup

theorem Pids.persists {k k' : Kernel} {n : ℕ} (h : Pids k n) (hp : k.Persists k') : Pids k' n := by
  have hid : (fun t => (k'.tasks t).id) = fun t => (k.tasks t).id :=
    funext fun t => (hp.tasks t).id
  refine ⟨hp.nextPid.trans h.next, fun hn t ht => ?_, fun hn => ?_⟩
  · rw [(hp.tasks t).id]
    exact h.le hn t (hp.alive.subset ht)
  · rw [hid]
    exact (h.nodup hn).sublist (hp.alive.map _)

theorem Pids.created {k k' : Kernel} {n t : ℕ} (h : Pids k n) (hcr : k.Created k' t)
    (hnew : t ∉ k.alive) : Pids k' (n + 1) := by
  have hold : ∀ x ∈ k.alive, (k'.tasks x).id = (k.tasks x).id := by
    intro x hx
    rw [hcr.old fun e => hnew (e ▸ hx)]
  have hid : n + 1 < 2 ^ 32 → (k'.tasks t).id.toNat = n + 1 := by
    intro hn
    rw [hcr.id, h.next, toNat_ofNat_of_lt hn]
  refine ⟨?_, fun hn x hx => ?_, fun hn => ?_⟩
  · rw [hcr.nextPid, h.next, UInt32.ofNat_add (n + 1) 1]
    rfl
  · rw [hcr.alive] at hx
    obtain rfl | hx := List.mem_cons.1 hx
    · exact (hid hn).le
    · rw [hold x hx]
      exact (h.le (by omega) x hx).trans (Nat.le_succ n)
  · rw [hcr.alive, List.map_cons, List.map_congr_left hold]
    refine List.nodup_cons.2 ⟨fun hmem => ?_, h.nodup (by omega)⟩
    obtain ⟨x, hx, he⟩ := List.mem_map.1 hmem
    have h1 := h.le (by omega) x hx
    have h2 := hid hn
    rw [← he] at h2
    omega

/-- What holds in every state that a run reaches. -/
structure Inv (img : Image) (s : System) : Prop where
  list : ∃ l, s.kernel.Consistent img s.buffers l
  pids : Pids s.kernel s.created

theorem Inv.step (h : s.Inv img) (hs : s.step img op = some s') : s'.Inv img := by
  obtain ⟨⟨l, hc⟩, hpids⟩ := h
  obtain ⟨l', ⟨hn, hp, hc'⟩ | ⟨t, hnew, hn, hcr, hc'⟩⟩ := step_cases hs hc
  · exact ⟨⟨l', hc'⟩, hn ▸ hpids.persists hp⟩
  · exact ⟨⟨l', hc'⟩, hn ▸ hpids.created hcr hnew⟩

end System

/-! ### After `init_tasking` -/

/-- The kernel that `kernel_main` has set up to run tasks: the kernel task is the only one. -/
structure Kernel.Booted (img : Image) (k : Kernel) : Prop where
  current : k.currentTask = img.kernelTask
  alive : k.alive = [img.kernelTask]
  next : k.current.next = img.kernelTask
  id : k.current.id = 0
  state : k.current.state = .running
  isUser : k.current.isUser = false
  cr3 : k.current.cr3 = vmmGetKernelPageDirectory img
  nextPid : k.nextPid = 1
  owns : Owns k.heap []

variable {img : Image} {k₀ k : Kernel} {magic : UInt32} {mbi : Pmm.MultibootInfo}

theorem Kernel.boot_cases (h : k₀.boot img magic mbi = some k) : ∃ heapPage m₁ m₂,
    Machine.allocPage (initVmm img { k₀.machine with
      pages := Pmm.initPmm img.toKernelImage magic mbi
      outOfMemory := false
      highDirectory := false }) = (heapPage, m₁) ∧
    vmmMapPage img m₁ (UInt32.ofNat HEAP_START) heapPage (PAGE_PRESENT ||| PAGE_RW) = some m₂ ∧
    Grows img m₂ k.machine ∧ k.Booted img := by
  obtain ⟨k₁, h1, h⟩ := Option.bind_eq_some_iff.1 h
  obtain ⟨m₂, hm, h1⟩ := Option.bind_eq_some_iff.1 h1
  cases h1
  refine ⟨_, _, m₂, rfl, hm, ?_⟩
  obtain ⟨k₂, h2, h⟩ := Option.bind_eq_some_iff.1 h
  obtain ⟨heap, machine, files, fdTable, rfl, hg, ho, _⟩ :=
    Kernel.initTaskFds_cases h2 (owns_initHeap _)
  cases h
  refine ⟨hg, ?_⟩
  constructor <;> simp [Kernel.current, Kernel.setTask, Kernel.setNext, ho.left]

theorem Kernel.Booted.inv (h : k.Booted img) : (System.start k).Inv img := by
  have hid : (k.tasks img.kernelTask).id = 0 := by
    rw [← h.current]
    exact h.id
  refine ⟨⟨[], ⟨⟨?_, List.nodup_singleton _⟩, ?_, ?_, hid, ?_⟩⟩, h.nextPid, fun _ t ht => ?_, ?_⟩
  · exact h.next.trans h.current.symm
  · rw [System.start, h.alive, h.current]
  · rw [System.start, h.alive]
    exact List.mem_singleton_self _
  · have hb : k.blocks img = [] := by simp [Kernel.blocks, Kernel.blocksOf, h.alive]
    rw [System.start, hb]
    exact h.owns
  · rw [System.start, h.alive, List.mem_singleton] at ht
    rw [ht, System.start, hid]
    rfl
  · intro _
    rw [System.start, h.alive]
    exact List.nodup_singleton _

/-! ### The ring -/

namespace Kernel

/-- Following `next` from the current task visits the tasks `ts`, each once, and comes back. -/
structure Visits (k : Kernel) (ts : List ℕ) : Prop where
  nodup : ts.Nodup
  visited : (walk k.nextOf k.currentTask ts.length).Perm ts
  back : k.nextOf^[ts.length] k.currentTask = k.currentTask

/-- The tasks alive are visited; the kernel task is one of them, and the others are blocks of the
heap in use. -/
structure RingOk (img : Image) (k : Kernel) : Prop where
  visits : k.Visits k.alive
  kernel : img.kernelTask ∈ k.alive ∧ (k.tasks img.kernelTask).id = 0
  inUse : ∀ t ∈ k.alive, t ≠ img.kernelTask →
    ∃ bs b, Heap.Ok k.heap bs ∧ Used bs b ∧ t = b.addr + 16

/-- The task `t` is taken out of the list, and the other tasks keep all but their links. -/
structure Killed (img : Image) (k k' : Kernel) (t : ℕ) : Prop where
  alive : k'.alive = k.alive.erase t
  ring : RingOk img k'
  current : k'.currentTask = k.currentTask
  tasks : ∀ x, k'.tasks x = { k.tasks x with next := (k'.tasks x).next }

/-- `kill_task` returns the pid, as an `int`, and removes the task that has it, if it is not `0`
and there is such a task besides the current one; else it returns `-1` and does nothing. -/
structure KillOk (img : Image) (k : Kernel) (pid : UInt32) : Prop where
  found : ∀ t ∈ k.alive, t ≠ k.currentTask → (k.tasks t).id = pid → pid ≠ 0 →
    (k.killTask pid).1 = pid.toInt32.toInt ∧ Killed img k (k.killTask pid).2 t
  notFound : (pid = 0 ∨ ∀ t ∈ k.alive, t ≠ k.currentTask → (k.tasks t).id ≠ pid) →
    k.killTask pid = (-1, k)

variable {buffers l : List ℕ}

theorem Consistent.ringOk (h : Consistent img k buffers l) : RingOk img k := by
  obtain ⟨h1, h2⟩ := h.ring.path.walk
  have hlen : k.alive.length = l.length + 1 := h.alive.length_eq
  refine ⟨⟨h.nodup, ?_, ?_⟩, ⟨h.kernel, h.kernelId⟩, fun t ht hne => ?_⟩
  · rw [hlen, h1]
    exact h.alive.symm
  · rw [hlen, h2]
  · obtain ⟨bs, hok, _, hused⟩ := h.owns
    obtain ⟨b, hb, he⟩ := hused t (List.mem_append_left _ (mem_blocks ht hne).1)
    exact ⟨bs, b, hok, hb, he⟩

theorem Consistent.killOk (h : Consistent img k buffers l)
    (hids : (k.alive.map fun t => (k.tasks t).id).Nodup) (pid : UInt32) : KillOk img k pid := by
  have hl : ∀ t, t ∈ l ↔ t ∈ k.alive ∧ t ≠ k.currentTask := by
    intro t
    rw [h.mem_iff]
    have hc := (List.nodup_cons.1 h.ring.nodup).1
    constructor
    · exact fun ht => ⟨Or.inr ht, fun e => hc (e ▸ ht)⟩
    · exact fun ⟨ht, hne⟩ => ht.resolve_left hne
  refine ⟨fun t ht hne hid h0 => ?_, fun hno => ?_⟩
  · obtain ⟨xs, u, ys, rfl, _, hu, _, he⟩ | ⟨hno, _⟩ := killTask_cases h pid
    · -- pids are distinct, so the task found is `t`
      have hut : u = t := by
        have hua : u ∈ k.alive := ((hl u).1 (by simp)).1
        exact List.inj_on_of_nodup_map hids hua ht (hu.trans hid.symm)
      subst hut
      rw [he]
      have hcons := h.remove (hid ▸ h0)
      refine ⟨rfl, ?_, hcons.ringOk, currentTask_remove .., fun x => ?_⟩
      · rw [remove_eq]
      · rw [remove_eq]
        dsimp only
        rw [Function.update_apply]
        split_ifs with hx
        · rw [hx]
        · rfl
    · obtain h0' | hno := hno
      · exact absurd h0' h0
      · exact absurd hid (hno t ((hl t).2 ⟨ht, hne⟩))
  · obtain ⟨xs, t, ys, rfl, h0, hid, _, _⟩ | ⟨_, he⟩ := killTask_cases h pid
    · obtain h0' | hno := hno
      · exact absurd h0' h0
      · obtain ⟨ht, hne⟩ := (hl t).1 (by simp)
        exact absurd hid (hno t ht hne)
    · exact he

end Kernel

/-- **The task ring**: in every state that a run from `init_tasking` on reaches, the list of the
current task visits every task created and not yet removed exactly once, among them the kernel
task, and no freed block; with fewer than `2 ^ 32` creations the pids are distinct, and
`kill_task` removes the task it is asked to remove and no other. -/
theorem run_ring (hboot : k₀.boot img magic mbi = some k) {ops : List Op} {s : System}
    (hrun : (System.start k).run img ops = some s) :
    s.kernel.RingOk img ∧
      (s.created < 2 ^ 32 → (s.kernel.alive.map fun t => (s.kernel.tasks t).id).Nodup ∧
        ∀ pid, s.kernel.KillOk img pid) := by
  obtain ⟨_, _, _, _, _, _, hbooted⟩ := Kernel.boot_cases hboot
  obtain ⟨⟨l, hc⟩, hpids⟩ : s.Inv img :=
    System.run_induction (fun _ _ _ hinv hs => hinv.step hs) hbooted.inv hrun
  refine ⟨hc.ringOk, fun hn => ⟨hpids.nodup hn, fun pid => hc.killOk (hpids.nodup hn) pid⟩⟩

/-! ### Two user tasks on a small machine -/

/-- A user task is created as long as there is room. -/
theorem System.Inv.createUserTask_of_calm {s : System} {r n top : ℕ} (r' : ℕ) (h : s.Inv img)
    (hcalm : s.kernel.Calm img r n top) (hr : r' + 1500 ≤ r) (hn : n + 2 < 1024)
    (htop : n + 2 < top) :
    ∃ s' t, s.step img .createUserTask = some s' ∧ s'.created = s.created + 1 ∧
      t ∉ s.kernel.alive ∧ s.kernel.Created s'.kernel t ∧ (s'.kernel.tasks t).isUser = true ∧
      (s'.kernel.tasks t).cr3 ≠ 0 ∧ s'.kernel.Calm img r' (n + 3) top := by
  obtain ⟨⟨t, k⟩, he, ht, hroom, hopen, hcr3, hdir, -⟩ :=
    Kernel.createUserTask_of_calm hcalm hr hn htop
  obtain ⟨l, hc⟩ := h.list
  obtain ⟨h0, _⟩ | ⟨_, hcr, kstack, stack, cr3, hh, ho, _⟩ :=
    Kernel.createUserTask_cases he hc.currentHeld hc.owns
  · exact absurd h0 ht
  obtain ⟨hnew, _⟩ := hc.created hcr hh.kernelStack ho.left
  have hstep : s.step img .createUserTask = some (s.withTask (t, k)) := by
    simp only [System.step, he, Option.map_some]
  have hcur : k.current.cr3 = s.kernel.current.cr3 := by
    unfold Kernel.current
    rw [hcr.currentTask, hcr.current]
    rfl
  refine ⟨_, t, hstep, if_neg ht, hnew, hcr, hh.isUser, fun h0 => ?_, hroom, hopen, ?_, ?_⟩
  · have := (frameAddr_eq_zero (show n + 1 < 2 ^ 20 by omega)).1 (hdir.symm.trans h0)
    omega
  · exact hcur.trans (hcalm.cr3.trans hcr3.symm)
  · exact fun e => hcalm.cr3_ne (hcr3.symm.trans e)

/-- After `kernel_main` has created two user tasks. -/
structure TwoUsers (k : Kernel) (s : System) (t u : ℕ) : Prop where
  boot : blankKernel.boot smallImage Pmm.MULTIBOOT_BOOTLOADER_MAGIC smallMap = some k
  run : (System.start k).run smallImage [.createUserTask, .createUserTask] = some s
  created : s.created = 2
  ne : t ≠ u
  alive : s.kernel.alive = [u, t, smallImage.kernelTask]
  current : s.kernel.currentTask = smallImage.kernelTask
  ready : ∀ x ∈ s.kernel.alive, x ≠ smallImage.kernelTask → (s.kernel.tasks x).state = .ready
  directory : ∀ x ∈ s.kernel.alive, (s.kernel.tasks x).cr3 ≠ 0
  isUser : (s.kernel.tasks t).isUser = true ∧ (s.kernel.tasks u).isUser = true
  outOfMemory : s.kernel.machine.outOfMemory = false
  highDirectory : s.kernel.machine.highDirectory = false

theorem exists_twoUsers : ∃ k s t u, TwoUsers k s t u := by
  obtain ⟨k, hboot, hcalm⟩ := blankKernel_boot
  obtain ⟨_, _, _, _, _, _, hbooted⟩ := Kernel.boot_cases hboot
  have hinv : (System.start k).Inv smallImage := hbooted.inv
  obtain ⟨s₁, t, h1, hn1, hnew1, hcr1, hu1, hd1, hc1⟩ :=
    hinv.createUserTask_of_calm 2000 hcalm (by omega) (by omega) (by omega)
  obtain ⟨s₂, u, h2, hn2, hnew2, hcr2, hu2, hd2, hc2⟩ :=
    (hinv.step h1).createUserTask_of_calm 500 hc1 (by omega) (by omega) (by omega)
  have hut : t ≠ u := by
    rintro rfl
    exact hnew2 (hcr1.alive ▸ List.mem_cons_self ..)
  have halive : s₂.kernel.alive = [u, t, smallImage.kernelTask] := by
    rw [hcr2.alive, hcr1.alive]
    exact congrArg (fun l => u :: t :: l) hbooted.alive
  have hcur : s₂.kernel.currentTask = smallImage.kernelTask :=
    hcr2.currentTask.trans (hcr1.currentTask.trans hbooted.current)
  refine ⟨k, s₂, t, u, hboot, ?_, by rw [hn2, hn1]; rfl, hut, halive, hcur, ?_, ?_, ⟨?_, hu2⟩,
    hc2.machine.outOfMemory, hc2.machine.highDirectory⟩
  · rw [System.run_cons h1, System.run_cons h2, System.run_nil]
  · intro x hx hne
    rw [halive] at hx
    simp only [List.mem_cons, List.not_mem_nil, or_false, hne] at hx
    obtain rfl | rfl := hx
    · exact hcr2.state
    · rw [hcr2.old hut]
      exact hcr1.state
  · intro x hx
    rw [halive] at hx
    simp only [List.mem_cons, List.not_mem_nil, or_false] at hx
    obtain rfl | rfl | rfl := hx
    · exact hd2
    · rw [hcr2.old hut]
      exact hd1
    · rw [← hcur]
      exact fun h0 => hc2.cr3_ne (hc2.cr3.symm.trans h0)
  · rw [hcr2.old hut]
    exact hu1

/-- After they have been created and the first of them has been killed. -/
theorem run_ring_twoUsers : ∃ k s,
    blankKernel.boot smallImage Pmm.MULTIBOOT_BOOTLOADER_MAGIC smallMap = some k ∧
    (System.start k).run smallImage [.createUserTask, .createUserTask, .killTask 1] = some s ∧
    s.kernel.RingOk smallImage ∧
      (s.created < 2 ^ 32 → (s.kernel.alive.map fun t => (s.kernel.tasks t).id).Nodup ∧
        ∀ pid, s.kernel.KillOk smallImage pid) := by
  obtain ⟨k, s, t, u, h⟩ := exists_twoUsers
  have hrun := System.run_append h.run [.killTask 1]
  rw [System.run_cons rfl, System.run_nil] at hrun
  exact ⟨k, _, h.boot, hrun, run_ring h.boot hrun⟩

end NosmeriOs.Tasks
