import NosmeriOs.TaskContext

/-! # Putting a task into the list under timer interrupts

`create_task` and `create_user_task` link the new task in three steps: load
`current_task->next`, store it in `new_task->next`, store the new task in
`current_task->next`.  The kernel task runs them with interrupts enabled; a timer interrupt
between them may switch to other tasks, and `schedule` removes the dead tasks it meets.

* `Interrupted`: what can happen until the kernel task goes on.
* `AtInsertion`: the state in which the creation of a task reaches the insertion.
* `run_insertion_iff`: the list is a ring of the live tasks afterwards exactly when the loaded
  task still is the next one at the last store. -/

namespace NosmeriOs.Tasks

open Vmm Heap Rings

namespace Kernel

/-! ### The insertion as steps -/

section functions
variable (img : Image)

/-- `addTask` up to the insertion. -/
def prepareTask (k : Kernel) (newTask kernelStackMem : ℕ) (userStackMem cr3 : UInt32)
    (isUser : Bool) : Option Kernel := do
  let k := k.setTask newTask { k.tasks newTask with
    kernelStackBottom := kernelStackMem
    kernelStackTop := (kernelStackMem + TASK_STACK_SIZE.toNat) % 2 ^ 32
    userStackBottom := userStackMem
    cr3 := cr3
    isUser := isUser
    id := k.nextPid
    state := .ready
    wakeTick := 0 }
  let k := { k with nextPid := k.nextPid + 1 }
  let k ← k.initTaskFds img newTask
  some (k.setTask newTask { k.tasks newTask with
    cwd := if k.currentTask ≠ 0 then k.current.cwd else k.vfsRoot })

/-- `current_task->next = new_task`. -/
def link (k : Kernel) (newTask : ℕ) : Kernel :=
  { k.setNext k.currentTask newTask with alive := newTask :: k.alive }

variable (add : Kernel → ℕ → ℕ → UInt32 → UInt32 → Bool → Option Kernel)

/-- `create_task` with another way to add the task to the list. -/
def createTaskWith (k : Kernel) : Option (ℕ × Kernel) := do
  let (stackMem, k) ← k.kmalloc img TASK_STACK_SIZE
  if stackMem = 0 then some (0, k)
  else
    let (newTask, k) ← k.kmalloc img TASK_SIZE
    if newTask = 0 then some (0, k.kfree stackMem)
    else
      let k ← add k newTask stackMem 0 (k.tasks img.kernelTask).cr3 false
      some (newTask, k)

/-- `create_user_task` after `pmm_alloc_page`, with another way to add the task to the list. -/
def userTaskWith (k : Kernel) (kernelStackMem : ℕ) : UInt32 × Machine → Option (ℕ × Kernel)
  | (userStackMem, m) => do
    let k := { k with machine := m }
    if kernelStackMem = 0 ∨ userStackMem = 0 then
      let k := if kernelStackMem ≠ 0 then k.kfree kernelStackMem else k
      let k := if userStackMem ≠ 0 then k.freePage userStackMem else k
      some (0, k)
    else
      let (newTask, k) ← k.kmalloc img TASK_SIZE
      if newTask = 0 then some (0, (k.kfree kernelStackMem).freePage userStackMem)
      else
        let (cr3, m) ← k.newAddressSpace img userStackMem
        let k := { k with machine := m }
        let k ← add k newTask kernelStackMem userStackMem cr3 true
        some (newTask, k)

/-- `create_user_task` with another way to add the task to the list. -/
def createUserTaskWith (k : Kernel) : Option (ℕ × Kernel) := do
  let (kernelStackMem, k) ← k.kmalloc img TASK_STACK_SIZE
  k.userTaskWith img add kernelStackMem k.machine.allocPage

end functions

variable {img : Image} {k k' kp : Kernel} {buffers l : List ℕ} {t : ℕ}

theorem createTask_eq (k : Kernel) :
    k.createTask img = k.createTaskWith img (Kernel.addTask img) := rfl

theorem createUserTask_eq (k : Kernel) :
    k.createUserTask img = k.createUserTaskWith img (Kernel.addTask img) := rfl

/-- Without an interrupt, the three steps are the insertion of `addTask`. -/
theorem addTask_eq (k : Kernel) (t kernelStackMem : ℕ) (userStackMem cr3 : UInt32)
    (isUser : Bool) : k.addTask img t kernelStackMem userStackMem cr3 isUser =
      (k.prepareTask img t kernelStackMem userStackMem cr3 isUser).map fun k =>
        (k.setNext t k.current.next).link t := by
  unfold addTask prepareTask
  dsimp only
  cases initTaskFds img _ t with
  | none => rfl
  | some k₁ => rfl

/-- `create_task` or `create_user_task`, called in `k`, has made the task `t` and is about to
link it in `kp`. -/
structure AtInsertion (img : Image) (k : Kernel) (t : ℕ) (kp : Kernel) : Prop where
  ne_zero : t ≠ 0
  call : k.createTaskWith img (Kernel.prepareTask img) = some (t, kp) ∨
    k.createUserTaskWith img (Kernel.prepareTask img) = some (t, kp)

/-- The insertion at once, when there is a new task. -/
def inserted (r : ℕ × Kernel) : ℕ × Kernel :=
  if r.1 = 0 then r else (r.1, (r.2.setNext r.1 r.2.current.next).link r.1)

theorem inserted_zero (k : Kernel) : inserted (0, k) = (0, k) := rfl

theorem inserted_of_ne (ht : t ≠ 0) (k : Kernel) :
    inserted (t, k) = (t, (k.setNext t k.current.next).link t) := if_neg ht

theorem createTask_eq_inserted (k : Kernel) : k.createTask img =
    (k.createTaskWith img (Kernel.prepareTask img)).map inserted := by
  rw [createTask_eq]
  unfold createTaskWith
  cases k.kmalloc img TASK_STACK_SIZE with
  | none => rfl
  | some r =>
      obtain ⟨stackMem, k₁⟩ := r
      dsimp only [Option.bind_eq_bind, Option.bind_some]
      by_cases h0 : stackMem = 0
      · simp only [if_pos h0, Option.map_some, inserted_zero]
      · rw [if_neg h0, if_neg h0]
        cases k₁.kmalloc img TASK_SIZE with
        | none => rfl
        | some r =>
            obtain ⟨newTask, k₂⟩ := r
            dsimp only [Option.bind_some]
            by_cases ht : newTask = 0
            · simp only [if_pos ht, Option.map_some, inserted_zero]
            · rw [if_neg ht, if_neg ht, addTask_eq]
              cases prepareTask img k₂ newTask stackMem 0 (k₂.tasks img.kernelTask).cr3 false with
              | none => rfl
              | some k₃ => simp only [Option.map_some, Option.bind_some, inserted_of_ne ht]

theorem userTaskWith_eq_inserted (k : Kernel) (stackMem : ℕ) (r : UInt32 × Machine) :
    k.userTaskWith img (Kernel.addTask img) stackMem r =
      (k.userTaskWith img (Kernel.prepareTask img) stackMem r).map inserted := by
  obtain ⟨userStackMem, m⟩ := r
  unfold userTaskWith
  dsimp only
  by_cases h0 : stackMem = 0 ∨ userStackMem = 0
  · simp only [if_pos h0, Option.map_some, inserted_zero]
  · rw [if_neg h0, if_neg h0]
    cases kmalloc img { k with machine := m } TASK_SIZE with
    | none => rfl
    | some r =>
        obtain ⟨newTask, k₂⟩ := r
        dsimp only [Option.bind_eq_bind, Option.bind_some]
        by_cases ht : newTask = 0
        · simp only [if_pos ht, Option.map_some, inserted_zero]
        · rw [if_neg ht, if_neg ht]
          cases newAddressSpace img k₂ userStackMem with
          | none => rfl
          | some r =>
              obtain ⟨cr3, m₁⟩ := r
              rw [Option.bind_some, Option.bind_some]
              dsimp only
              rw [addTask_eq]
              cases prepareTask img { k₂ with machine := m₁ } newTask stackMem userStackMem
                cr3 true with
              | none => rfl
              | some k₃ => simp only [Option.map_some, Option.bind_some, inserted_of_ne ht]

theorem createUserTask_eq_inserted (k : Kernel) : k.createUserTask img =
    (k.createUserTaskWith img (Kernel.prepareTask img)).map inserted := by
  rw [createUserTask_eq]
  unfold createUserTaskWith
  cases k.kmalloc img TASK_STACK_SIZE with
  | none => rfl
  | some r => exact userTaskWith_eq_inserted r.2 r.1 r.2.machine.allocPage

theorem tasks_setNext (k : Kernel) (t next x : ℕ) : (k.setNext t next).tasks x =
    { k.tasks x with next := if x = t then next else (k.tasks x).next } := by
  simp only [setNext, tasks_setTask]
  split_ifs with h
  · rw [h]
  · rfl

@[simp] theorem currentTask_setNext (k : Kernel) (t next : ℕ) :
    (k.setNext t next).currentTask = k.currentTask := rfl

theorem tasks_link (k : Kernel) (t x : ℕ) : (k.link t).tasks x =
    { k.tasks x with next := if x = k.currentTask then t else (k.tasks x).next } :=
  tasks_setNext k k.currentTask t x

theorem AtInsertion.created (h : AtInsertion img k t kp) (hc : Consistent img k buffers l) :
    Created k ((kp.setNext t kp.current.next).link t) t ∧
      Owns kp.heap (t :: (kp.tasks t).kernelStackBottom :: (k.blocks img ++ buffers)) := by
  have hstack : (((kp.setNext t kp.current.next).link t).tasks t).kernelStackBottom =
      (kp.tasks t).kernelStackBottom := by
    rw [tasks_link, tasks_setNext]
  obtain ⟨ht, h | h⟩ := h
  · obtain ⟨_, ⟨h0, _⟩ | ⟨_, hcr, stack, hh, ho⟩⟩ :=
      createTask_cases (by rw [createTask_eq_inserted, h, Option.map_some, inserted_of_ne ht])
        hc.currentHeld hc.owns
    · exact absurd h0 ht
    · refine ⟨hcr, ?_⟩
      rw [← hstack, hh.kernelStack]
      exact ho.left
  · obtain ⟨h0, _⟩ | ⟨_, hcr, stack, _, _, hh, ho, _⟩ :=
      createUserTask_cases
        (by rw [createUserTask_eq_inserted, h, Option.map_some, inserted_of_ne ht])
        hc.currentHeld hc.owns
    · exact absurd h0 ht
    · refine ⟨hcr, ?_⟩
      rw [← hstack, hh.kernelStack]
      exact ho.left

/-- Changes outside the list leave it consistent. -/
theorem Consistent.frame {buffers' : List ℕ} (hc : Consistent img k buffers l)
    (hcur : k'.currentTask = k.currentTask) (halive : k'.alive = k.alive) (ht : t ∉ k.alive)
    (hold : ∀ x, x ≠ t → k'.tasks x = k.tasks x) (ho : Owns k'.heap (k.blocks img ++ buffers')) :
    Consistent img k' buffers' l := by
  have hne : ∀ x ∈ k.alive, x ≠ t := fun x hx e => ht (e ▸ hx)
  refine ⟨?_, ?_, ?_, ?_, ?_⟩
  · rw [hcur]
    refine hc.ring.congr fun x hx => ?_
    simp only [nextOf, hold x (hne x (hc.alive.mem_iff.2 hx))]
  · rw [halive, hcur]
    exact hc.alive
  · rw [halive]
    exact hc.kernel
  · rw [hold _ (hne _ hc.kernel)]
    exact hc.kernelId
  · have hblocks : k'.blocks img = k.blocks img := by
      unfold blocks
      rw [halive]
      exact blocksOf_congr fun x hx => by rw [hold x (hne x hx)]
    rw [hblocks]
    exact ho

/-- At the insertion the list is as it was, and the new task is not in it. -/
theorem AtInsertion.spec (h : AtInsertion img k t kp) (hc : Consistent img k buffers l) :
    t ∉ kp.alive ∧ kp.currentTask = k.currentTask ∧ (∀ x, x ≠ t → kp.tasks x = k.tasks x) ∧
      Consistent img kp (t :: (kp.tasks t).kernelStackBottom :: buffers) l := by
  obtain ⟨hcr, ho⟩ := h.created hc
  have hps : k.blocks img ⊆ (kp.tasks t).kernelStackBottom :: (k.blocks img ++ buffers) :=
    fun x hx => List.mem_cons_of_mem _ (List.mem_append_left _ hx)
  have hnew := not_mem_alive hps ho
  have hct : t ≠ k.currentTask := fun e => hnew (e ▸ hc.current_mem)
  have hcur : kp.currentTask = k.currentTask := hcr.currentTask
  have halive : kp.alive = k.alive := (List.cons.inj hcr.alive).2
  -- the old tasks are as before
  have hold : ∀ x, x ≠ t → kp.tasks x = k.tasks x := by
    intro x hx
    by_cases hxc : x = k.currentTask
    · subst hxc
      have hn := hcr.next
      rw [tasks_link, tasks_setNext] at hn
      simp only [currentTask_setNext, hcur, if_neg hct, if_true] at hn
      have hc' := congrArg (fun y : Task => { y with next := k.current.next }) hcr.current
      rw [tasks_link, tasks_setNext] at hc'
      have hkp : kp.tasks k.currentTask =
          { kp.tasks k.currentTask with next := k.current.next } := by
        rw [← hn, Kernel.current, hcur]
      rw [hkp]
      exact hc'
    · have ho' := hcr.others x hx hxc
      rw [tasks_link, tasks_setNext, if_neg hx] at ho'
      simp only [currentTask_setNext, hcur, if_neg hxc] at ho'
      exact ho'
  exact ⟨halive ▸ hnew, hcur, hold, hc.frame hcur halive hnew hold
    (ho.perm (List.perm_append_comm_assoc [_, _] _ _))⟩

/-! ### While the kernel task is interrupted -/

/-- The task `t` is outside the list, and nothing happens to it. -/
structure Spares (t : ℕ) (k k' : Kernel) : Prop where
  outside : t ∉ k'.alive
  task : k'.tasks t = k.tasks t

theorem Spares.refl (ht : t ∉ k.alive) : Spares t k k := ⟨ht, rfl⟩

theorem Spares.trans {k₁ k₂ k₃ : Kernel} (h : Spares t k₁ k₂) (h' : Spares t k₂ k₃) :
    Spares t k₁ k₃ :=
  ⟨h'.outside, h'.task.trans h.task⟩

theorem killTask_spares (hc : Consistent img k buffers l) (ht : t ∉ k.alive) (pid : UInt32) :
    Spares t k (k.killTask pid).2 := by
  have halive := (killTask_persists hc pid).alive
  refine ⟨fun hm => ht (halive.subset hm), ?_⟩
  obtain ⟨xs, u, ys, rfl, _, _, _, he⟩ | ⟨_, he⟩ := killTask_cases hc pid
  · rw [he, remove_eq]
    dsimp only
    refine Function.update_of_ne (fun e => ht ?_) _ _
    -- the task before the removed one is in the list
    rw [e, hc.alive.mem_iff, ← List.cons_append]
    exact List.mem_append_left _ List.getLastD_mem_cons
  · rw [he]

theorem Kills.spares (hk : Kills k k') (hc : Consistent img k buffers l) (ht : t ∉ k.alive) :
    Spares t k k' :=
  hk.induction hc (fun _ _ pid hc h => h.trans (killTask_spares hc h.outside pid)) (.refl ht)

theorem schedule_spares (hk : k.schedule = some k') (hc : Consistent img k buffers l)
    (ht : t ∉ k.alive) : Spares t k k' := by
  obtain ⟨k₁, l₁, hkills, hc₁, hcur, rfl | ⟨next, hnext, _, hswitch⟩⟩ := schedule_cases hk hc
  · exact hkills.spares hc ht
  · have h₁ := hkills.spares hc ht
    refine h₁.trans ⟨?_, ?_⟩
    · rw [switchTo_eq hswitch]
      exact h₁.outside
    · have hn : t ≠ next := fun e => h₁.outside (e ▸ hnext)
      have hp : t ≠ k.currentTask := fun e => ht (e ▸ hc.current_mem)
      rw [switchTo_eq hswitch]
      simp only [switched, switchedState, if_neg hn, hp, false_and, if_false]

theorem stop_spares (hc : Consistent img k buffers l) (ht : t ∉ k.alive) (st : TaskState)
    (wakeTick : UInt32) : Spares t k (k.stop st wakeTick) := by
  refine ⟨ht, ?_⟩
  rw [tasks_stop]
  exact if_neg fun e : t = k.currentTask => ht (e ▸ hc.current_mem)

theorem taskTimerTick_spares (hc : Consistent img k buffers l) (ht : t ∉ k.alive) :
    Spares t k k.taskTimerTick := by
  rw [taskTimerTick_eq hc]
  exact ⟨ht, if_neg ht⟩

/-- One step while the kernel task is interrupted: a timer interrupt, or the task that runs
exits, sleeps or yields. -/
inductive Meanwhile (img : Image) (k k' : Kernel) : Prop
  | timerHandler : k.timerHandler = some k' → Meanwhile img k k'
  | exitTask : k.currentTask ≠ img.kernelTask → k.exitTask = some k' → Meanwhile img k k'
  | taskSleep (ms : UInt32) : k.currentTask ≠ img.kernelTask → k.taskSleep ms = some k' →
      Meanwhile img k k'
  | schedule : k.currentTask ≠ img.kernelTask → k.schedule = some k' → Meanwhile img k k'

/-- The kernel task, interrupted any number of times in `k`, goes on in `k'`. -/
def Interrupted (img : Image) (k k' : Kernel) : Prop :=
  Relation.ReflTransGen (Meanwhile img) k k' ∧ k'.currentTask = img.kernelTask

theorem Meanwhile.spec (h : Meanwhile img k k') (hc : Consistent img k buffers l) :
    (∃ l', Consistent img k' buffers l') ∧ ∀ t ∉ k.alive, Spares t k k' := by
  cases h with
  | timerHandler hk =>
      refine ⟨(hc.timerHandler hk).1, fun t ht => ?_⟩
      have htick := hc.tick.1
      have h₁ : Spares t k { k with timerTicks := k.timerTicks + 1 } := ⟨ht, rfl⟩
      have h₂ := taskTimerTick_spares htick h₁.outside
      exact h₁.trans (h₂.trans (schedule_spares hk htick.taskTimerTick h₂.outside))
  | exitTask _ hk =>
      refine ⟨(hc.exitTask hk).1, fun t ht => ?_⟩
      have h₁ := stop_spares hc ht .dead k.current.wakeTick
      exact h₁.trans (schedule_spares hk (hc.stop _ _) h₁.outside)
  | taskSleep ms _ hk =>
      refine ⟨(hc.taskSleep hk).1, fun t ht => ?_⟩
      rw [taskSleep_eq hc] at hk
      have h₁ := stop_spares hc ht .sleeping (k.timerTicks + sleepTicks ms)
      exact h₁.trans (schedule_spares hk (hc.stop _ _) h₁.outside)
  | schedule _ hk => exact ⟨hc.schedule hk, fun t ht => schedule_spares hk hc ht⟩

theorem meanwhile_run (h : Relation.ReflTransGen (Meanwhile img) k k')
    (hc : Consistent img k buffers l) :
    (∃ l', Consistent img k' buffers l') ∧ ∀ t ∉ k.alive, Spares t k k' := by
  induction h with
  | refl => exact ⟨⟨l, hc⟩, fun t ht => .refl ht⟩
  | tail _ hstep ih =>
      obtain ⟨⟨l₁, hc₁⟩, hs₁⟩ := ih
      obtain ⟨hc₂, hs₂⟩ := hstep.spec hc₁
      exact ⟨hc₂, fun t ht => (hs₁ t ht).trans (hs₂ t (hs₁ t ht).outside)⟩

/-! ### The insertion -/

/-- The three steps of the insertion of `t`, which starts in `kp`: the next task is loaded, and
stored in the new task after an interruption that ends in `k₁`; the new task is stored in the
current one, the kernel task, after another that ends in `k₂`. -/
structure InsertSteps (img : Image) (kp : Kernel) (t : ℕ) (k₁ k₂ : Kernel) : Prop where
  kernel : kp.currentTask = img.kernelTask
  first : Interrupted img kp k₁
  second : Interrupted img (k₁.setNext t kp.current.next) k₂

/-- Before the last store, the list is consistent and the new task holds the loaded link. -/
theorem InsertSteps.spec {k₁ k₂ : Kernel} (h : InsertSteps img kp t k₁ k₂) (ht : t ∉ kp.alive)
    (hc : Consistent img kp buffers l) :
    (∃ l₂, Consistent img k₂ buffers l₂) ∧ t ∉ k₂.alive ∧
      k₂.tasks t = { kp.tasks t with next := kp.current.next } := by
  obtain ⟨⟨l₁, hc₁⟩, hs₁⟩ := meanwhile_run h.first.1 hc
  have ht₁ := (hs₁ t ht).outside
  have hc₁' : Consistent img (k₁.setNext t kp.current.next) buffers l₁ := by
    refine hc₁.frame rfl rfl ht₁ (fun x hx => ?_) hc₁.owns
    rw [tasks_setNext, if_neg hx]
  obtain ⟨hc₂, hs₂⟩ := meanwhile_run h.second.1 hc₁'
  have hs := hs₂ t ht₁
  refine ⟨hc₂, hs.outside, ?_⟩
  rw [hs.task, tasks_setNext, if_pos rfl, (hs₁ t ht).task]

/-- A link to the next task makes the list a ring again, with the new task in it. -/
theorem Consistent.link {kernelStackMem : ℕ} {buffers : List ℕ} (ht : t ∉ k.alive)
    (hc : Consistent img k (t :: kernelStackMem :: buffers) l)
    (hstack : (k.tasks t).kernelStackBottom = kernelStackMem)
    (hnext : k.nextOf t = k.nextOf k.currentTask) :
    Consistent img (k.link t) buffers (t :: l) := by
  have hct : t ≠ k.currentTask := fun e => ht (e ▸ hc.current_mem)
  have hkt : img.kernelTask ≠ t := fun e => ht (e ▸ hc.kernel)
  refine ⟨?_, ?_, ?_, ?_, ?_⟩
  · refine hc.ring.insert (fun hm => ht (hc.alive.mem_iff.2 hm)) ?_ ?_ fun x hx => ?_
    · simp only [nextOf, tasks_link, if_true]
    · simp only [nextOf, tasks_link, if_neg hct]
      exact hnext
    · have hxc : x ≠ k.currentTask := fun e => (List.nodup_cons.1 hc.ring.nodup).1 (e ▸ hx)
      simp only [nextOf, tasks_link, if_neg hxc]
  · exact (hc.alive.cons t).trans (List.Perm.swap ..)
  · exact List.mem_cons_of_mem _ hc.kernel
  · rw [tasks_link]
    exact hc.kernelId
  · have hblocks : (k.link t).blocks img = t :: kernelStackMem :: k.blocks img := by
      unfold blocks
      rw [show (k.link t).alive = t :: k.alive from rfl, blocksOf_cons hkt.symm, tasks_link, hstack]
      congr 2
      exact blocksOf_congr fun x _ => by rw [tasks_link]
    rw [hblocks]
    exact hc.owns.perm (List.perm_append_comm_assoc _ [_, _] _)

/-- After the last store the list is a ring of the live tasks exactly when the loaded task was
still the next one before it. -/
theorem InsertSteps.ringOk_iff {k₁ k₂ : Kernel} (h : InsertSteps img kp t k₁ k₂)
    (ht : t ∉ kp.alive)
    (hc : Consistent img kp (t :: (kp.tasks t).kernelStackBottom :: buffers) l) :
    RingOk img (k₂.link t) ↔ k₂.current.next = kp.current.next := by
  obtain ⟨⟨l₂, hc₂⟩, ht₂, htask⟩ := h.spec ht hc
  have hct : t ≠ k₂.currentTask := fun e => ht₂ (e ▸ hc₂.current_mem)
  have hnext : k₂.nextOf t = kp.current.next := by
    rw [nextOf, htask]
  constructor
  · rintro ⟨⟨hnodup, hvisited, hback⟩, -, -⟩
    have halive : (k₂.link t).alive = t :: k₂.alive := rfl
    have hcur : (k₂.link t).currentTask = k₂.currentTask := rfl
    rw [halive] at hnodup hvisited hback
    rw [hcur] at hvisited hback
    rw [List.length_cons, walk_succ] at hvisited
    -- the walk of the new list is a ring too
    have hpath := path_walk (k₂.link t).nextOf k₂.currentTask k₂.alive.length
    rw [← List.length_cons (a := t)] at hpath
    rw [hback] at hpath
    have hperm : (walk (k₂.link t).nextOf ((k₂.link t).nextOf k₂.currentTask)
        k₂.alive.length).Perm (t :: l₂) := by
      have h1 := hvisited.trans (hc₂.alive.cons t)
      exact (h1.trans (List.Perm.swap ..)).cons_inv
    have hring : Ring (k₂.link t).nextOf k₂.currentTask _ := ⟨hpath, hvisited.nodup_iff.2 hnodup⟩
    have hins := hc₂.ring.of_insert hring hperm ?_ fun x hx => ?_
    · simp only [nextOf, tasks_link, if_neg hct] at hins
      exact hins.symm.trans hnext
    · simp only [nextOf, tasks_link, if_true]
    · have hxc : x ≠ k₂.currentTask := fun e => (List.nodup_cons.1 hc₂.ring.nodup).1 (e ▸ hx)
      simp only [nextOf, tasks_link, if_neg hxc]
  · intro he
    refine Consistent.ringOk (hc₂.link ht₂ ?_ ?_)
    · rw [htask]
    · rw [hnext, ← he]
      rfl

/-! ### Small lists -/

/-- `schedule` removes the next task when it is dead; alone, the current one goes on. -/
theorem schedule_reap {x : ℕ} (hc : Consistent img k buffers [x])
    (hdead : (k.tasks x).state = .dead) (hid : (k.tasks x).id ≠ 0)
    (hrun : k.current.state = .running) : k.schedule = some (k.remove x k.currentTask) := by
  have hnext : k.current.next = x := hc.ring.path.1
  have hback : (k.tasks x).next = k.currentTask := hc.ring.path.2
  have hxc : x ≠ k.currentTask := fun e => (List.nodup_cons.1 hc.ring.nodup).1 (e ▸ by simp)
  have hlen : k.alive.length = 2 := hc.alive.length_eq
  have hkill : (k.killTask (k.tasks x).id).2 = k.remove x k.currentTask := by
    obtain ⟨xs, u, ys, hxs, _, _, _, he⟩ | ⟨h0 | hno, _⟩ := killTask_cases hc (k.tasks x).id
    · obtain ⟨rfl, rfl, rfl⟩ : xs = [] ∧ u = x ∧ ys = [] := by
        cases xs with
        | nil => simpa [eq_comm] using hxs
        | cons y xs => simp at hxs
      rw [he]
      rfl
    · exact absurd h0 hid
    · exact absurd rfl (hno x (by simp))
  have hstate : ((k.remove x k.currentTask).tasks k.currentTask).state = .running := by
    rw [remove_fields]
    exact hrun
  unfold schedule
  rw [if_neg (by simp [hc.current_ne_zero, hnext, hxc]), hlen, hnext]
  simp [scheduleLoop, hdead, hxc, hkill, hback, hstate]

/-- A switch between two tasks of one address space. -/
theorem switchTo_same {prev next : ℕ} (h : (k.tasks prev).cr3 = (k.tasks next).cr3) :
    k.switchTo prev next = some (k.switched prev next) := by
  rw [switchTo_def, if_neg]
  exact fun hne => hne.1 h

end Kernel

/-- **The insertion under timer interrupts.**  In every reachable state, and wherever interrupts
fall between the steps of the insertion, the list is a ring of the live tasks afterwards exactly
when the task loaded as the next one still is the next one at the last store. -/
theorem run_insertion_iff {img : Image} {k₀ k kp k₁ k₂ : Kernel} {magic : UInt32}
    {mbi : Pmm.MultibootInfo} {s : System} {ops : List Op} {t : ℕ}
    (hboot : k₀.boot img magic mbi = some k) (hrun : (System.start k).run img ops = some s)
    (hp : s.kernel.AtInsertion img t kp) (hsteps : kp.InsertSteps img t k₁ k₂) :
    (k₂.link t).RingOk img ↔ k₂.current.next = kp.current.next := by
  obtain ⟨_, _, _, _, _, _, hbooted⟩ := Kernel.boot_cases hboot
  have hinv : s.Inv img := System.run_induction (fun _ _ _ h hs => h.step hs) hbooted.inv hrun
  obtain ⟨l, hc⟩ := hinv.list
  obtain ⟨ht, _, _, hc'⟩ := hp.spec hc
  exact hsteps.ringOk_iff ht hc'

/-! ### A dead task next to the kernel task -/

namespace Kernel

variable {img : Image} {k : Kernel} {c x : ℕ}

/-- Two tasks of one address space, `c` the current one, and room in the heap. -/
structure Duo (img : Image) (k : Kernel) (c x : ℕ) : Prop where
  list : Consistent img k [] [x]
  current : k.currentTask = c
  cr3 : (k.tasks c).cr3 = (k.tasks x).cr3
  room : Room k.heap 2300

theorem Duo.ne (h : Duo img k c x) : c ≠ x := by
  have hn := (List.nodup_cons.1 h.list.ring.nodup).1
  rw [h.current] at hn
  exact fun e => hn (e ▸ List.mem_cons_self ..)

/-- `schedule` switches to the other task when it is ready. -/
theorem Duo.schedule (h : Duo img k c x) (hx : (k.tasks x).state = .ready) :
    k.schedule = some (k.switched c x) ∧ Duo img (k.switched c x) x c := by
  have hnext : k.current.next = x := h.list.ring.path.1
  have hs : k.schedule = some (k.switched c x) := by
    rw [schedule_ready h.list (by rw [hnext, h.current]; exact h.ne.symm) (hnext.symm ▸ hx), hnext,
      h.current]
    exact switchTo_same h.cr3
  obtain ⟨l, hl⟩ := h.list.schedule hs
  obtain rfl : l = [c] := by
    have hp := h.list.alive.symm.trans hl.alive
    rw [h.current] at hp
    exact (List.singleton_perm.1 ((List.Perm.swap c x []).trans hp).cons_inv).symm
  exact ⟨hs, hl, rfl, h.cr3.symm, h.room⟩

/-- The current task exits, and the other one goes on. -/
theorem Duo.exitTask (h : Duo img k c x) (hx : (k.tasks x).state = .ready) :
    ∃ k', k.exitTask = some k' ∧ Duo img k' x c ∧ (k'.tasks c).state = .dead ∧
      (k'.tasks x).state = .running ∧ ∀ t, (k'.tasks t).id = (k.tasks t).id := by
  have hstop : Duo img (k.stop .dead k.current.wakeTick) c x := by
    refine ⟨h.list.stop _ _, h.current, ?_, h.room⟩
    have hp := (stop_persists k .dead k.current.wakeTick).tasks
    exact (hp c).cr3.trans (h.cr3.trans (hp x).cr3.symm)
  have hx' : ((k.stop .dead k.current.wakeTick).tasks x).state = .ready := by
    rw [tasks_stop, if_neg (by rw [h.current]; exact h.ne.symm)]
    exact hx
  have hc' : ((k.stop .dead k.current.wakeTick).tasks c).state = .dead := by
    rw [tasks_stop, if_pos h.current.symm]
  obtain ⟨hs, hd⟩ := hstop.schedule hx'
  refine ⟨_, hs, hd, ?_, ?_, fun t => ?_⟩
  · simp [switched, switchedState, h.ne, hc']
  · simp [switched, switchedState]
  · exact ((stop_persists k .dead k.current.wakeTick).tasks t).id

/-- After boot, the kernel task creates a task. -/
theorem Booted.duo {k : Kernel} {n top : ℕ} (h : k.Booted img)
    (hcalm : k.Calm img 3800 n top) :
    ∃ x k', k.createTask img = some (x, k') ∧ Duo img k' img.kernelTask x ∧
      (k'.tasks img.kernelTask).state = .running ∧ (k'.tasks x).state = .ready ∧
      (k'.tasks x).id = 1 := by
  have hi : (System.start k).Inv img := h.inv
  obtain ⟨l, hc⟩ := hi.list
  obtain rfl : l = [] := by
    have hp := hc.alive
    rw [show (System.start k).kernel = k from rfl, h.alive, h.current] at hp
    exact List.nil_perm.1 hp.cons_inv
  obtain ⟨⟨x, k'⟩, he, hx, hends⟩ := @createTask_of_room img k 3800 2300 hcalm.room (by omega)
  obtain ⟨_, ⟨h0, _⟩ | ⟨_, hcr, kstack, hh, ho⟩⟩ := createTask_cases he hc.currentHeld hc.owns
  · exact absurd h0 hx
  obtain ⟨hnew, hc'⟩ := hc.created hcr hh.kernelStack ho.left
  have hold := hcr.old fun e => hnew (e ▸ hc.kernel)
  have hcur : k.current = k.tasks img.kernelTask := congrArg k.tasks h.current
  refine ⟨x, k', he, ⟨hc', hcr.currentTask.trans h.current, ?_, hends.room⟩, ?_, hcr.state, ?_⟩
  · rw [hold, hh.cr3]
  · rw [hold]
    exact hcur ▸ h.state
  · rw [hcr.id]
    exact h.nextPid

/-- With room in the heap, `create_task` reaches the insertion. -/
theorem Duo.atInsertion (h : Duo img k c x) : ∃ t kp, AtInsertion img k t kp := by
  obtain ⟨⟨t, k'⟩, he, ht, _⟩ := @createTask_of_room img k 2300 800 h.room (by omega)
  rw [createTask_eq_inserted, Option.map_eq_some_iff] at he
  obtain ⟨⟨t', kp⟩, hkp, hins⟩ := he
  have ht' : t' ≠ 0 := by
    rintro rfl
    rw [inserted_zero] at hins
    exact ht (congrArg Prod.fst hins).symm
  exact ⟨t', kp, ht', Or.inl hkp⟩

/-- A timer interrupt with a dead task next to a running one removes it. -/
theorem timerHandler_reap {buffers : List ℕ} (hc : Consistent img k buffers [x])
    (hdead : (k.tasks x).state = .dead) (hid : (k.tasks x).id ≠ 0)
    (hrun : k.current.state = .running) :
    ∃ k', k.timerHandler = some k' ∧ k'.currentTask = k.currentTask ∧
      k'.current.next = k.currentTask := by
  have htick := hc.tick.1
  have hc' := htick.taskTimerTick
  have hsame : ∀ y, (k.tasks y).state ≠ .sleeping →
      ({ k with timerTicks := k.timerTicks + 1 }).taskTimerTick.tasks y = k.tasks y := by
    intro y hy
    rw [taskTimerTick_eq htick]
    dsimp only
    unfold woken
    simp [hy]
  have hx := hsame x (by simp [hdead])
  have hcur := hsame k.currentTask (by rw [← Kernel.current, hrun]; decide)
  have hreap := schedule_reap hc' (by rw [hx]; exact hdead) (by rw [hx]; exact hid) (by
    rw [taskTimerTick_eq htick] at hcur ⊢
    exact (congrArg Task.state hcur).trans hrun)
  have hcur' : ({ k with timerTicks := k.timerTicks + 1 }).taskTimerTick.currentTask =
      k.currentTask := by
    rw [taskTimerTick_eq htick]
  have hgone := (@Consistent.remove img _ buffers [] [] x hc' (by rw [hx]; exact hid)).ring.path
  refine ⟨_, hreap, ?_, ?_⟩
  · rw [currentTask_remove, hcur']
  · rw [currentTask_remove, hcur'] at hgone
    rw [Kernel.current, currentTask_remove, hcur']
    exact hgone

end Kernel

/-- The kernel task has created a task, which ran and exited, and is about to insert another one.
A timer interrupt after the load removes the dead one. -/
structure DeadNext (k : Kernel) (s : System) (t : ℕ) (kp k₁ k₂ : Kernel) : Prop where
  boot : blankKernel.boot smallImage Pmm.MULTIBOOT_BOOTLOADER_MAGIC smallMap = some k
  run : (System.start k).run smallImage [.createTask, .schedule, .exitTask] = some s
  atInsertion : s.kernel.AtInsertion smallImage t kp
  steps : kp.InsertSteps smallImage t k₁ k₂
  moved : k₂.current.next ≠ kp.current.next

theorem exists_deadNext : ∃ k s t kp k₁ k₂, DeadNext k s t kp k₁ k₂ := by
  obtain ⟨k, hboot, hcalm⟩ := blankKernel_boot
  obtain ⟨_, _, _, _, _, _, hbooted⟩ := Kernel.boot_cases hboot
  obtain ⟨x, k₁, he, hduo₁, hrun₁, hready₁, hid₁⟩ := hbooted.duo hcalm
  -- it runs, and exits
  obtain ⟨hs₂, hduo₂⟩ := hduo₁.schedule hready₁
  have hready₂ : ((k₁.switched smallImage.kernelTask x).tasks smallImage.kernelTask).state =
      .ready := by
    simp [Kernel.switched, Kernel.switchedState, hduo₁.ne, hrun₁]
  obtain ⟨k₃, hs₃, hduo₃, hdead₃, hrun₃, hid₃⟩ := hduo₂.exitTask hready₂
  have hrun : (System.start k).run smallImage [.createTask, .schedule, .exitTask] =
      some ((System.start k).withTask (x, k₁) |>.withKernel k₃) := by
    have h1 : (System.start k).step smallImage .createTask =
        some ((System.start k).withTask (x, k₁)) := by
      simp only [System.step, System.start, he, Option.map_some]
    have h2 : ((System.start k).withTask (x, k₁)).step smallImage .schedule =
        some (((System.start k).withTask (x, k₁)).withKernel
          (k₁.switched smallImage.kernelTask x)) := by
      simp only [System.step, System.withTask, hs₂, Option.map_some]
    have h3 : (((System.start k).withTask (x, k₁)).withKernel
        (k₁.switched smallImage.kernelTask x)).step smallImage .exitTask =
        some (((System.start k).withTask (x, k₁)).withKernel k₃) := by
      simp only [System.step, System.withKernel, hs₃, Option.map_some]
    rw [System.run_cons h1, System.run_cons h2, System.run_cons h3, System.run_nil]
  -- the kernel task creates another one and is interrupted after the load
  obtain ⟨t, kp, hp⟩ := hduo₃.atInsertion
  obtain ⟨ht, hcur, hold, hcp⟩ := hp.spec hduo₃.list
  have hxt : x ≠ t := fun e => ht (hcp.alive.mem_iff.2 (by simp [e]))
  have hkt : smallImage.kernelTask ≠ t := fun e => ht (e ▸ hcp.kernel)
  have hkernel : kp.currentTask = smallImage.kernelTask := hcur.trans hduo₃.current
  obtain ⟨k₄, hs₄, hcur₄, hnext₄⟩ := Kernel.timerHandler_reap hcp (by rw [hold x hxt]; exact hdead₃)
    (by rw [hold x hxt, hid₃]; exact ne_of_eq_of_ne hid₁ (by decide))
    (by rw [Kernel.current, hkernel, hold _ hkt]; exact hrun₃)
  have hct : t ≠ k₄.currentTask := by
    rw [hcur₄, hkernel]
    exact hkt.symm
  refine ⟨k, _, t, kp, k₄, k₄.setNext t kp.current.next, hboot, hrun, hp,
    ⟨hkernel, ⟨.single (.timerHandler hs₄), hcur₄.trans hkernel⟩, .refl, hcur₄.trans hkernel⟩, ?_⟩
  have hnext : kp.current.next = x := hcp.ring.path.1
  rw [hnext, Kernel.current, Kernel.tasks_setNext, Kernel.currentTask_setNext, if_neg hct.symm]
  exact fun e => hduo₃.ne (hkernel.symm.trans (hnext₄.symm.trans e))

theorem run_insertion_iff_deadNext : ∃ k s t kp k₁ k₂, DeadNext k s t kp k₁ k₂ ∧
    ((k₂.link t).RingOk smallImage ↔ k₂.current.next = kp.current.next) := by
  obtain ⟨k, s, t, kp, k₁, k₂, h⟩ := exists_deadNext
  exact ⟨k, s, t, kp, k₁, k₂, h, run_insertion_iff h.boot h.run h.atInsertion h.steps⟩

/-- The removed task stays in the list. -/
theorem not_ringOk_deadNext : ∃ k s t kp k₁ k₂, DeadNext k s t kp k₁ k₂ ∧
    ¬ (k₂.link t).RingOk smallImage := by
  obtain ⟨k, s, t, kp, k₁, k₂, h⟩ := exists_deadNext
  obtain ⟨_, _, _, _, _, _, hbooted⟩ := Kernel.boot_cases h.boot
  have hinv : s.Inv smallImage :=
    System.run_induction (fun _ _ _ hi hs => hi.step hs) hbooted.inv h.run
  obtain ⟨l, hc⟩ := hinv.list
  obtain ⟨ht, _, _, hcp⟩ := h.atInsertion.spec hc
  exact ⟨k, s, t, kp, k₁, k₂, h, fun hr => h.moved ((h.steps.ringOk_iff ht hcp).1 hr)⟩

end NosmeriOs.Tasks
