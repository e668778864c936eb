import NosmeriOs.TaskSpec

/-! # The list of tasks

The tasks form a ring: creation puts a task after the current one, `kill_task` takes one out and
frees it, `schedule` does so with the dead tasks that it meets.

* `Consistent`: the tasks alive are the cells of a ring, the kernel task is one of them, and the
  others and their stacks are heap blocks in use, apart from the buffers of the rest of the
  kernel.
* `killTask_cases`, `schedule_cases`, `switchTo_eq` and `taskTimerTick_eq` say what the functions
  do to a consistent list; the loops end before their fuel does.
* `Consistent.created`, `Consistent.killTask`, `Consistent.schedule` and
  `Consistent.taskTimerTick`: the list stays consistent. -/

namespace NosmeriOs.Tasks

open Vmm Vfs Heap Rings

namespace Kernel

def nextOf (k : Kernel) (t : ℕ) : ℕ := (k.tasks t).next

/-- The blocks of some tasks with the given stacks: all but the kernel's have been allocated. -/
def blocksOf (img : Image) (stack : ℕ → ℕ) (l : List ℕ) : List ℕ :=
  (l.filter (· ≠ img.kernelTask)).flatMap fun t => [t, stack t]

/-- The blocks of the tasks alive. -/
def blocks (img : Image) (k : Kernel) : List ℕ :=
  blocksOf img (fun t => (k.tasks t).kernelStackBottom) k.alive

/-- The tasks alive are the ring `l` after the current one; what they hold is in use, and so are
the `buffers`. -/
structure Consistent (img : Image) (k : Kernel) (buffers l : List ℕ) : Prop where
  ring : Ring k.nextOf k.currentTask l
  alive : k.alive.Perm (k.currentTask :: l)
  kernel : img.kernelTask ∈ k.alive
  kernelId : (k.tasks img.kernelTask).id = 0
  owns : Owns k.heap (k.blocks img ++ buffers)

variable {img : Image} {k k' : Kernel} {buffers l : List ℕ} {pid : UInt32}

section blocks
variable {stack stack' : ℕ → ℕ} {t : ℕ} {ts ts' : List ℕ}

theorem blocksOf_cons (ht : t ≠ img.kernelTask) :
    blocksOf img stack (t :: ts) = t :: stack t :: blocksOf img stack ts := by
  simp [blocksOf, ht]

theorem blocksOf_perm (h : ts.Perm ts') : (blocksOf img stack ts).Perm (blocksOf img stack ts') :=
  (h.filter _).flatMap_right _

theorem blocksOf_congr (h : ∀ t ∈ ts, stack' t = stack t) :
    blocksOf img stack' ts = blocksOf img stack ts := by
  refine List.flatMap_congr fun t ht => ?_
  rw [h t (List.mem_of_mem_filter ht)]

end blocks

theorem mem_blocks {t : ℕ} (ht : t ∈ k.alive) (hne : t ≠ img.kernelTask) :
    t ∈ k.blocks img ∧ (k.tasks t).kernelStackBottom ∈ k.blocks img := by
  have hmem : t ∈ k.alive.filter (· ≠ img.kernelTask) := by simp [ht, hne]
  constructor
  · exact List.mem_flatMap.2 ⟨t, hmem, by simp⟩
  · exact List.mem_flatMap.2 ⟨t, hmem, by simp⟩

theorem kernelTask_lt (img : Image) : img.kernelTask < HEAP_START := by
  have h1 := img.task_mem.2
  have h2 := img.le
  simp only [HEAP_START]
  omega

namespace Consistent

theorem nodup (h : Consistent img k buffers l) : k.alive.Nodup :=
  h.alive.nodup_iff.2 h.ring.nodup

theorem mem_iff (h : Consistent img k buffers l) {t : ℕ} :
    t ∈ k.alive ↔ t = k.currentTask ∨ t ∈ l := by
  rw [h.alive.mem_iff, List.mem_cons]

theorem current_mem (h : Consistent img k buffers l) : k.currentTask ∈ k.alive :=
  h.mem_iff.2 (Or.inl rfl)

theorem currentHeld (h : Consistent img k buffers l) :
    k.CurrentHeld (k.blocks img ++ buffers) := by
  by_cases hk : k.currentTask = img.kernelTask
  · exact Or.inr (hk ▸ kernelTask_lt img)
  · exact Or.inl (List.mem_append_left _ (mem_blocks h.current_mem hk).1)

theorem current_ne_zero (h : Consistent img k buffers l) : k.currentTask ≠ 0 := by
  by_cases hk : k.currentTask = img.kernelTask
  · have := img.task_mem.1
    omega
  · have := h.owns.ge (List.mem_append_left _ (mem_blocks h.current_mem hk).1)
    simp only [HEAP_START] at this
    omega

end Consistent

/-! ### `kill_task` -/

theorem tasks_setState (k : Kernel) (t : ℕ) (st : TaskState) (y : ℕ) : (k.setState t st).tasks y =
    { k.tasks y with state := if y = t then st else (k.tasks y).state } := by
  unfold setState
  rw [tasks_setTask]
  split_ifs with hy
  · rw [hy]
  · rfl

theorem remove_eq (k : Kernel) (t prev : ℕ) : k.remove t prev = { k with
    heap := Heap.kfree (Heap.kfree k.heap (k.tasks t).kernelStackBottom) t
    machine := if (k.tasks t).isUser then
        (k.machine.freePage (k.tasks t).userStackBottom).freePage (k.tasks t).cr3
      else k.machine
    tasks := Function.update k.tasks prev { k.tasks prev with next := (k.tasks t).next }
    alive := k.alive.erase t } := by
  have h1 := k.setNext_field Task.kernelStackBottom (fun _ _ => rfl) prev (k.tasks t).next t
  have h2 := k.setNext_field Task.isUser (fun _ _ => rfl) prev (k.tasks t).next t
  have h3 := k.setNext_field Task.userStackBottom (fun _ _ => rfl) prev (k.tasks t).next t
  have h4 := k.setNext_field Task.cr3 (fun _ _ => rfl) prev (k.tasks t).next t
  unfold remove
  simp only [Kernel.kfree, h1, h2]
  split_ifs
  · simp only [Kernel.freePage, h3, h4]
    rfl
  · rfl

/-- Only links change. -/
theorem remove_fields (k : Kernel) (t prev x : ℕ) : (k.remove t prev).tasks x =
    { k.tasks x with next := ((k.remove t prev).tasks x).next } := by
  rw [remove_eq]
  dsimp only
  rw [Function.update_apply]
  split_ifs with hx
  · rw [hx]
  · rfl

/-- The loop takes out the first task from `t` on that has the pid; its fuel is enough. -/
theorem killLoop_of_ring (pid : UInt32) {xs ys : List ℕ} {t fuel : ℕ}
    (hr : Ring k.nextOf k.currentTask (xs ++ t :: ys)) (hf : ys.length < fuel) :
    (∃ us u vs, t :: ys = us ++ u :: vs ∧ (∀ x ∈ us, (k.tasks x).id ≠ pid) ∧
      (k.tasks u).id = pid ∧ killLoop k pid fuel t (xs.getLastD k.currentTask)
        = (pid.toInt32.toInt, k.remove u ((xs ++ us).getLastD k.currentTask))) ∨
    (∀ x ∈ t :: ys, (k.tasks x).id ≠ pid) ∧
      killLoop k pid fuel t (xs.getLastD k.currentTask) = (-1, k) := by
  induction ys generalizing xs t fuel with
  | nil =>
      obtain ⟨fuel, rfl⟩ := Nat.exists_eq_add_of_lt hf
      by_cases ht : (k.tasks t).id = pid
      · exact Or.inl ⟨[], t, [], rfl, by simp, ht, by simp [killLoop, ht]⟩
      · have hn : (k.tasks t).next = k.currentTask := hr.next_mem
        exact Or.inr ⟨by simpa using ht, by simp [killLoop, ht, hn]⟩
  | cons y ys ih =>
      obtain ⟨fuel, rfl⟩ := Nat.exists_eq_add_of_lt hf
      by_cases ht : (k.tasks t).id = pid
      · exact Or.inl ⟨[], t, y :: ys, rfl, by simp, ht, by simp [killLoop, ht]⟩
      · have hn : (k.tasks t).next = y := hr.next_mem
        have hy : y ≠ k.currentTask := by
          rintro rfl
          exact (List.nodup_cons.1 hr.nodup).1 (by simp)
        -- one round of the loop brings `y` into the place of `t`
        have hloop : killLoop k pid ((y :: ys).length + fuel + 1) t (xs.getLastD k.currentTask)
            = killLoop k pid ((y :: ys).length + fuel) y ((xs ++ [t]).getLastD k.currentTask) := by
          rw [killLoop, if_neg ht, hn, if_neg hy, List.getLastD_concat]
        have hr' : Ring k.nextOf k.currentTask ((xs ++ [t]) ++ y :: ys) := by
          rwa [List.append_assoc, List.singleton_append]
        rw [hloop]
        obtain ⟨us, u, vs, he, hus, hu, hk⟩ | ⟨hall, hk⟩ :=
          ih hr' (show ys.length < (y :: ys).length + fuel by rw [List.length_cons]; omega)
        · refine Or.inl ⟨t :: us, u, vs, by rw [he, List.cons_append], ?_, hu, ?_⟩
          · intro x hx
            obtain rfl | hx := List.mem_cons.1 hx
            · exact ht
            · exact hus x hx
          · rw [hk, List.append_assoc, List.singleton_append]
        · refine Or.inr ⟨?_, hk⟩
          intro x hx
          obtain rfl | hx := List.mem_cons.1 hx
          · exact ht
          · exact hall x hx

/-- `kill_task` takes out the first task after the current one that has the pid, if there is one,
and otherwise does nothing. -/
theorem killTask_cases (h : Consistent img k buffers l) (pid : UInt32) :
    (∃ xs t ys, l = xs ++ t :: ys ∧ pid ≠ 0 ∧ (k.tasks t).id = pid ∧
      (∀ x ∈ xs, (k.tasks x).id ≠ pid) ∧
      k.killTask pid = (pid.toInt32.toInt, k.remove t (xs.getLastD k.currentTask))) ∨
    (pid = 0 ∨ ∀ t ∈ l, (k.tasks t).id ≠ pid) ∧ k.killTask pid = (-1, k) := by
  have hc := h.current_ne_zero
  by_cases h0 : pid = 0
  · exact Or.inr ⟨Or.inl h0, by rw [killTask, if_neg hc, if_pos h0]⟩
  · rw [killTask, if_neg hc, if_neg h0, h.alive.length_eq]
    cases l with
    | nil =>
        -- the kernel task is the only one, and it is not looked for
        have hk : k.currentTask = img.kernelTask := by
          obtain hk | hk := h.mem_iff.1 h.kernel
          · exact hk.symm
          · cases hk
        have hid : k.current.id ≠ pid := by
          unfold Kernel.current
          rw [hk, h.kernelId]
          exact Ne.symm h0
        have hn : k.current.next = k.currentTask := h.ring.next_eq
        refine Or.inr ⟨Or.inr (by simp), ?_⟩
        have hid' : (k.tasks k.currentTask).id ≠ pid := hid
        have hn' : (k.tasks k.currentTask).next = k.currentTask := hn
        simp [killLoop, hn, hid', hn']
    | cons y ys =>
        have hn : k.current.next = y := h.ring.next_eq
        rw [hn]
        have hr : Ring k.nextOf k.currentTask ([] ++ y :: ys) := h.ring
        obtain ⟨us, u, vs, he, hus, hu, hk⟩ | ⟨hall, hk⟩ :=
          killLoop_of_ring pid hr (show ys.length < (k.currentTask :: y :: ys).length by
            rw [List.length_cons, List.length_cons]; omega)
        · exact Or.inl ⟨us, u, vs, he, h0, hu, hus, hk⟩
        · exact Or.inr ⟨Or.inr hall, hk⟩

/-- The task behind the current one is found at once. -/
theorem killTask_next {t : ℕ} (hcur : k.currentTask ≠ 0) (h0 : pid ≠ 0)
    (halive : k.alive = t :: l) (hnext : k.current.next = t) (hid : (k.tasks t).id = pid) :
    k.killTask pid = (pid.toInt32.toInt, k.remove t k.currentTask) := by
  unfold killTask
  rw [if_neg hcur, if_neg h0, halive, hnext, List.length_cons]
  unfold killLoop
  rw [if_pos hid]

/-- The ring without the task removed. -/
theorem ring_remove {xs ys : List ℕ} {t : ℕ} (hr : Ring k.nextOf k.currentTask (xs ++ t :: ys)) :
    Ring (k.remove t (xs.getLastD k.currentTask)).nextOf k.currentTask (xs ++ ys) := by
  rw [remove_eq]
  refine hr.remove ?_ fun x _ hx => ?_
  · simp only [nextOf, Function.update_self]
  · simp only [nextOf, Function.update_of_ne hx]

theorem erase_perm {c t : ℕ} {xs ys ts : List ℕ} (hp : ts.Perm (c :: (xs ++ t :: ys))) :
    (ts.erase t).Perm (c :: (xs ++ ys)) := by
  have hfront : (c :: (xs ++ t :: ys)).Perm (t :: c :: (xs ++ ys)) := by
    rw [← List.cons_append]
    exact List.perm_middle
  have herase := (hp.trans hfront).erase t
  rwa [List.erase_cons_head] at herase

theorem Consistent.remove {xs ys : List ℕ} {t : ℕ}
    (h : Consistent img k buffers (xs ++ t :: ys)) (hid : (k.tasks t).id ≠ 0) :
    Consistent img (k.remove t (xs.getLastD k.currentTask)) buffers (xs ++ ys) := by
  have hring := ring_remove h.ring
  rw [remove_eq] at hring ⊢
  have hkt : img.kernelTask ≠ t := fun e => hid (e ▸ h.kernelId)
  have herase := erase_perm h.alive
  refine ⟨hring, herase, (List.mem_erase_of_ne hkt).2 h.kernel, ?_, ?_⟩
  · dsimp only
    rw [Function.update_apply]
    split_ifs with hp
    · rw [← hp]
      exact h.kernelId
    · exact h.kernelId
  · -- the two freed blocks are split off the ones in use
    have hstack : ∀ x, (Function.update k.tasks (xs.getLastD k.currentTask)
        { k.tasks (xs.getLastD k.currentTask) with next := (k.tasks t).next } x).kernelStackBottom
          = (k.tasks x).kernelStackBottom := by
      intro x
      rw [Function.update_apply]
      split_ifs with hp
      · rw [hp]
      · rfl
    have hmem : t ∈ k.alive := h.mem_iff.2 (Or.inr (by simp))
    have hblocks : (k.blocks img).Perm (t :: (k.tasks t).kernelStackBottom ::
        blocksOf img (fun t => (k.tasks t).kernelStackBottom) (k.alive.erase t)) := by
      rw [← @blocksOf_cons img (fun t => (k.tasks t).kernelStackBottom) t _ hkt.symm]
      exact blocksOf_perm (List.perm_cons_erase hmem)
    have ho := h.owns.perm (hblocks.append_right buffers)
    have ho' := (ho.perm (List.Perm.swap ..)).kfree.kfree
    unfold blocks
    dsimp only
    rwa [blocksOf_congr fun x _ => hstack x]

theorem Consistent.killTask (h : Consistent img k buffers l) (pid : UInt32) :
    ∃ l', Consistent img (k.killTask pid).2 buffers l' := by
  obtain ⟨xs, t, ys, rfl, h0, hid, _, he⟩ | ⟨_, he⟩ := killTask_cases h pid
  · rw [he]
    exact ⟨xs ++ ys, h.remove (hid ▸ h0)⟩
  · rw [he]
    exact ⟨l, h⟩

/-! ### `schedule` -/

/-- `k'` is `k` after some calls of `kill_task`. -/
def Kills : Kernel → Kernel → Prop :=
  Relation.ReflTransGen fun k k' => ∃ pid, k' = (k.killTask pid).2

theorem Kills.consistent (hk : Kills k k') (h : Consistent img k buffers l) :
    ∃ l', Consistent img k' buffers l' := by
  induction hk with
  | refl => exact ⟨l, h⟩
  | tail _ hstep ih =>
      obtain ⟨pid, rfl⟩ := hstep
      obtain ⟨l', h'⟩ := ih
      exact h'.killTask pid

/-- What `kill_task` preserves in consistent states, any number of calls preserves. -/
theorem Kills.induction {P : Kernel → Prop} (hk : Kills k k') (h : Consistent img k buffers l)
    (hP : ∀ k l pid, Consistent img k buffers l → P k → P (k.killTask pid).2) (h0 : P k) :
    P k' := by
  induction hk with
  | refl => exact h0
  | tail hks hstep ih =>
      obtain ⟨pid, rfl⟩ := hstep
      obtain ⟨l', h'⟩ := Kills.consistent hks h
      exact hP _ l' pid h' ih

@[simp] theorem currentTask_remove (k : Kernel) (t prev : ℕ) :
    (k.remove t prev).currentTask = k.currentTask := by
  rw [remove_eq]

/-- The search ends at a ready task or at the current one.  Behind it lie the tasks `vs`, ahead
of it `ys`; the fuel is enough. -/
theorem scheduleLoop_spec {vs ys : List ℕ} {fuel : ℕ} (h : Consistent img k buffers (vs ++ ys))
    (hf : ys.length < fuel) :
    ∃ k' l next, scheduleLoop k.currentTask fuel k (ys.headD k.currentTask) = (next, k') ∧
      Kills k k' ∧ Consistent img k' buffers l ∧ k'.currentTask = k.currentTask ∧
      (next = k.currentTask ∨ next ∈ l ∧ (k'.tasks next).state = .ready) := by
  induction ys generalizing k vs fuel with
  | nil =>
      obtain ⟨fuel, rfl⟩ := Nat.exists_eq_add_of_lt hf
      refine ⟨k, vs, k.currentTask, ?_, .refl, by rwa [List.append_nil] at h, rfl, Or.inl rfl⟩
      rw [List.headD_nil, scheduleLoop, if_neg]
      exact fun hc => hc.2 rfl
  | cons y ys ih =>
      obtain ⟨fuel, rfl⟩ := Nat.exists_eq_add_of_lt hf
      have hn : (k.tasks y).next = ys.headD k.currentTask := h.ring.next_mem
      have hy : y ≠ k.currentTask := by
        rintro rfl
        exact (List.nodup_cons.1 h.ring.nodup).1 (by simp)
      have hf' : ys.length < (y :: ys).length + fuel := by
        rw [List.length_cons]
        omega
      have hstay : Consistent img k buffers ((vs ++ [y]) ++ ys) := by
        rwa [List.append_assoc, List.singleton_append]
      rw [List.headD_cons, scheduleLoop]
      by_cases hr : (k.tasks y).state = .ready
      · rw [if_neg fun hc => hc.1 hr]
        exact ⟨k, vs ++ y :: ys, y, rfl, .refl, h, rfl, Or.inr ⟨by simp, hr⟩⟩
      rw [if_pos ⟨hr, hy⟩, hn]
      by_cases hd : (k.tasks y).state = .dead
      · -- a task with the pid of `y` is killed: `y` itself or one behind it
        rw [if_pos hd]
        dsimp only
        obtain ⟨xs, t, zs, he, h0, hid, hxs, hk⟩ | ⟨_, hk⟩ := killTask_cases h (k.tasks y).id
        · obtain ⟨vs', hvs⟩ : ∃ vs', xs ++ zs = vs' ++ ys := by
            have hy' : y ∉ xs := fun hm => hxs y hm rfl
            obtain ⟨as, rfl, ha⟩ | ⟨cs, rfl, hc⟩ := List.append_eq_append_iff.1 he
            · cases as with
              | nil =>
                  obtain ⟨rfl, rfl⟩ := List.cons.inj ha
                  exact ⟨vs, by rw [List.append_nil]⟩
              | cons a as =>
                  obtain ⟨rfl, _⟩ := List.cons.inj ha
                  exact absurd (by simp) hy'
            · cases cs with
              | nil =>
                  obtain ⟨rfl, rfl⟩ := List.cons.inj hc
                  exact ⟨xs, rfl⟩
              | cons c cs =>
                  obtain ⟨rfl, rfl⟩ := List.cons.inj hc
                  exact ⟨xs ++ cs ++ [y], by simp⟩
          have hcons : Consistent img (k.remove t (xs.getLastD k.currentTask)) buffers
              (vs' ++ ys) := by
            rw [he] at h
            rw [← hvs]
            exact h.remove (hid ▸ h0)
          obtain ⟨k', l', next, hs, hks, hc', hcur, hnext⟩ := ih hcons hf'
          rw [currentTask_remove] at hs hcur hnext
          rw [hk]
          refine ⟨k', l', next, hs, ?_, hc', hcur, hnext⟩
          exact .head ⟨_, by rw [hk]⟩ hks
        · rw [hk]
          exact ih hstay hf'
      · rw [if_neg hd]
        exact ih hstay hf'

/-- The state of a task after a switch. -/
def switchedState (k : Kernel) (prev next t : ℕ) : TaskState :=
  if t = next then .running
  else if t = prev ∧ (k.tasks prev).state = .running then .ready
  else (k.tasks t).state

theorem setStates_eq (k : Kernel) (prev next : ℕ) :
    (if (k.tasks prev).state = .running then k.setState prev .ready else k).setState next .running
      = { k with tasks := fun t => { k.tasks t with state := k.switchedState prev next t } } := by
  have htasks : ((if (k.tasks prev).state = .running then k.setState prev .ready
      else k).setState next .running).tasks =
        fun t => { k.tasks t with state := k.switchedState prev next t } := by
    funext t
    unfold switchedState
    rw [tasks_setState]
    by_cases hp : (k.tasks prev).state = .running
    · rw [if_pos hp]
      simp only [tasks_setState, hp, and_true]
    · rw [if_neg hp]
      simp only [hp, and_false, if_false]
  rw [← htasks]
  split_ifs <;> rfl

/-- The kernel after a switch: two states, the stack for interrupts of a user task, and the
directory are set. -/
def switched (k : Kernel) (prev next : ℕ) : Kernel := { k with
    tasks := fun t => { k.tasks t with state := k.switchedState prev next t }
    esp0 := if (k.tasks next).isUser then (k.tasks next).kernelStackTop else k.esp0
    machine := { k.machine with
      cr3 := if (k.tasks prev).cr3 ≠ (k.tasks next).cr3 then (k.tasks next).cr3
        else k.machine.cr3 }
    currentTask := next }

theorem switchTo_def (k : Kernel) (prev next : ℕ) : k.switchTo prev next =
    if (k.tasks prev).cr3 ≠ (k.tasks next).cr3 ∧ (k.tasks next).cr3 = 0 then none
    else some (k.switched prev next) := by
  have hif : (if (k.tasks next).isUser = true then
      ({ k with
        tasks := fun t => { k.tasks t with state := k.switchedState prev next t }
        esp0 := (k.tasks next).kernelStackTop } : Kernel)
      else { k with tasks := fun t => { k.tasks t with state := k.switchedState prev next t } }) =
    { k with
        tasks := fun t => { k.tasks t with state := k.switchedState prev next t }
        esp0 := if (k.tasks next).isUser then (k.tasks next).kernelStackTop else k.esp0 } := by
    split_ifs <;> rfl
  unfold switchTo switched
  dsimp only
  rw [setStates_eq]
  dsimp only
  rw [hif]
  dsimp only
  by_cases hcr : (k.tasks prev).cr3 ≠ (k.tasks next).cr3
  · simp only [vmmSwitchPageDirectory, hcr, ne_eq, not_false_eq_true, true_and]
    split_ifs <;> rfl
  · have hn : ¬ ((k.tasks prev).cr3 ≠ (k.tasks next).cr3 ∧ (k.tasks next).cr3 = 0) :=
      fun h => hcr h.1
    rw [if_neg hcr, if_neg hcr, if_neg hn]
    rfl

theorem switchTo_eq {prev next : ℕ} (h : k.switchTo prev next = some k') :
    k' = k.switched prev next := by
  rw [switchTo_def] at h
  split_ifs at h
  exact (Option.some.inj h).symm

/-- `schedule` stays in the current task or switches to a ready one. -/
theorem schedule_eq (h : Consistent img k buffers l) :
    ∃ k₁ l₁, Kills k k₁ ∧ Consistent img k₁ buffers l₁ ∧ k₁.currentTask = k.currentTask ∧
      (k.schedule = some k₁ ∨ ∃ next, next ∈ k₁.alive ∧ (k₁.tasks next).state = .ready ∧
        k.schedule = k₁.switchTo k.currentTask next) := by
  unfold schedule
  by_cases hc : k.currentTask = 0 ∨ k.current.next = k.currentTask
  · rw [if_pos hc]
    exact ⟨k, l, .refl, h, rfl, Or.inl rfl⟩
  · rw [if_neg hc]
    have hstart : k.current.next = l.headD k.currentTask := h.ring.next_eq
    have hf : l.length < k.alive.length := by
      rw [h.alive.length_eq, List.length_cons]
      omega
    obtain ⟨k₁, l₁, next, hs, hkills, h', hcur, hnext⟩ :=
      scheduleLoop_spec (show Consistent img k buffers ([] ++ l) from h) hf
    rw [hstart]
    dsimp only
    rw [hs]
    dsimp only
    refine ⟨k₁, l₁, hkills, h', hcur, ?_⟩
    split_ifs with hr
    · exact Or.inl rfl
    · refine Or.inr ⟨next, ?_, not_not.1 hr, rfl⟩
      rw [h'.mem_iff, hcur]
      exact hnext.imp_right fun hn => hn.1

theorem schedule_cases (hk : k.schedule = some k') (h : Consistent img k buffers l) :
    ∃ k₁ l₁, Kills k k₁ ∧ Consistent img k₁ buffers l₁ ∧ k₁.currentTask = k.currentTask ∧
      (k' = k₁ ∨ ∃ next, next ∈ k₁.alive ∧ (k₁.tasks next).state = .ready ∧
        k₁.switchTo k.currentTask next = some k') := by
  obtain ⟨k₁, l₁, hkills, h₁, hcur, he | ⟨next, hn, hr, he⟩⟩ := schedule_eq h
  · rw [he] at hk
    cases hk
    exact ⟨k', l₁, hkills, h₁, hcur, Or.inl rfl⟩
  · rw [he] at hk
    exact ⟨k₁, l₁, hkills, h₁, hcur, Or.inr ⟨next, hn, hr, hk⟩⟩

/-- `schedule` switches to the next task when it is ready. -/
theorem schedule_ready (hc : Consistent img k buffers l) (hne : k.current.next ≠ k.currentTask)
    (hready : (k.tasks k.current.next).state = .ready) :
    k.schedule = k.switchTo k.currentTask k.current.next := by
  have hpos := List.length_pos_of_mem hc.current_mem
  obtain ⟨n, hn⟩ := Nat.exists_eq_succ_of_ne_zero hpos.ne'
  unfold schedule
  rw [if_neg (by simp [hc.current_ne_zero, hne]), hn]
  simp [scheduleLoop, hready]

/-- A change that leaves alone which tasks there are, their links, ids and stacks, and what of
the heap is in use. -/
theorem Consistent.congr (h : Consistent img k buffers l)
    (hcur : k'.currentTask = k.currentTask) (halive : k'.alive = k.alive)
    (htasks : ∀ t, (k'.tasks t).next = (k.tasks t).next ∧ (k'.tasks t).id = (k.tasks t).id ∧
      (k'.tasks t).kernelStackBottom = (k.tasks t).kernelStackBottom)
    {buffers' : List ℕ} (ho : Owns k'.heap (k.blocks img ++ buffers')) :
    Consistent img k' buffers' l := by
  refine ⟨?_, ?_, ?_, ?_, ?_⟩
  · rw [hcur]
    exact h.ring.congr fun x _ => (htasks x).1
  · rw [halive, hcur]
    exact h.alive
  · rw [halive]
    exact h.kernel
  · rw [(htasks _).2.1]
    exact h.kernelId
  · unfold blocks
    rwa [halive, blocksOf_congr fun x _ => (htasks x).2.2]

theorem Consistent.switchTo {next : ℕ} (h : Consistent img k buffers l)
    (hn : next ∈ k.alive) (hk : k.switchTo k.currentTask next = some k') :
    ∃ l', Consistent img k' buffers l' := by
  rw [switchTo_eq hk]
  -- the ring read from `next` on
  obtain ⟨l', hr, hp⟩ : ∃ l', Ring k.nextOf next l' ∧ k.alive.Perm (next :: l') := by
    obtain rfl | hn := h.mem_iff.1 hn
    · exact ⟨l, h.ring, h.alive⟩
    · obtain ⟨xs, ys, rfl⟩ := List.append_of_mem hn
      refine ⟨ys ++ k.currentTask :: xs, h.ring.rotate, h.alive.trans ?_⟩
      exact @List.perm_append_comm _ (k.currentTask :: xs) (next :: ys)
  exact ⟨l', hr.congr fun _ _ => rfl, hp, h.kernel, h.kernelId, h.owns⟩

theorem Consistent.schedule (h : Consistent img k buffers l) (hk : k.schedule = some k') :
    ∃ l', Consistent img k' buffers l' := by
  obtain ⟨k₁, l₁, _, h₁, hcur, rfl | ⟨next, hn, _, hs⟩⟩ := schedule_cases hk h
  · exact ⟨l₁, h₁⟩
  · rw [← hcur] at hs
    exact h₁.switchTo hn hs

/-! ### `task_timer_tick` -/

/-- The task after a tick: it is ready if its time has come. -/
def woken (k : Kernel) (t : ℕ) : Task :=
  if (k.tasks t).state = .sleeping ∧ (k.tasks t).wakeTick ≤ k.timerTicks then
    { k.tasks t with state := .ready }
  else k.tasks t

theorem wake_eq (k : Kernel) (t : ℕ) :
    k.wake t = { k with tasks := Function.update k.tasks t (k.woken t) } := by
  unfold wake woken
  split_ifs
  · rfl
  · rw [Function.update_eq_self]

theorem next_woken (k : Kernel) (t : ℕ) : (k.woken t).next = (k.tasks t).next := by
  unfold woken
  split_ifs <;> rfl

theorem tickLoop_succ (fuel : ℕ) (k : Kernel) (t : ℕ) : tickLoop (fuel + 1) k t =
    if (k.tasks t).next = k.currentTask then k.wake t
    else tickLoop fuel (k.wake t) (k.tasks t).next := by
  have hnext : ((k.wake t).tasks t).next = (k.tasks t).next := by
    rw [← next_woken k t, wake_eq]
    exact congrArg Task.next (Function.update_self ..)
  have hcur : (k.wake t).currentTask = k.currentTask := by rw [wake_eq]
  rw [tickLoop]
  simp only [hnext, hcur]

/-- The loop wakes the tasks ahead of it; its fuel is enough. -/
theorem tickLoop_of_path {t fuel : ℕ} {ys : List ℕ} (hp : Path k.nextOf t ys k.currentTask)
    (hn : (t :: ys).Nodup) (hc : k.currentTask ∉ ys) (hf : ys.length < fuel) :
    tickLoop fuel k t =
      { k with tasks := fun x => if x ∈ t :: ys then k.woken x else k.tasks x } := by
  induction ys generalizing k t fuel with
  | nil =>
      obtain ⟨fuel, rfl⟩ := Nat.exists_eq_add_of_lt hf
      have hnext : (k.tasks t).next = k.currentTask := hp
      rw [tickLoop_succ, if_pos hnext, wake_eq]
      simp only [List.mem_singleton]
      congr 1
      funext x
      rw [Function.update_apply]
      split_ifs with hx
      · rw [hx]
      · rfl
  | cons y ys ih =>
      obtain ⟨fuel, rfl⟩ := Nat.exists_eq_add_of_lt hf
      obtain ⟨hnext, hp⟩ := hp
      obtain ⟨ht, hn⟩ := List.nodup_cons.1 hn
      obtain ⟨hcy, hc⟩ := not_or.1 (mt List.mem_cons.2 hc)
      rw [tickLoop_succ, show (k.tasks t).next = y from hnext, if_neg (Ne.symm hcy), wake_eq]
      -- the task just woken does not come again
      have hp' : Path (Kernel.nextOf { k with
          tasks := Function.update k.tasks t (k.woken t) }) y ys k.currentTask := by
        refine hp.congr fun x hx => ?_
        have hxt : x ≠ t := fun e => ht (e ▸ hx)
        simp only [nextOf, Function.update_of_ne hxt]
      rw [ih hp' hn hc (by rw [List.length_cons]; omega)]
      congr 1
      funext x
      by_cases hx : x ∈ y :: ys
      · have hxt : x ≠ t := fun e => ht (e ▸ hx)
        rw [if_pos hx, if_pos (List.mem_cons_of_mem _ hx)]
        simp only [woken, Function.update_of_ne hxt]
      · rw [if_neg hx]
        dsimp only
        rw [Function.update_apply]
        by_cases hxt : x = t
        · rw [if_pos hxt, if_pos (hxt ▸ List.mem_cons_self ..), hxt]
        · rw [if_neg hxt, if_neg (List.not_mem_cons_of_ne_of_not_mem hxt hx)]

/-- `task_timer_tick` wakes every task whose time has come. -/
theorem taskTimerTick_eq (h : Consistent img k buffers l) : k.taskTimerTick =
    { k with tasks := fun t => if t ∈ k.alive then k.woken t else k.tasks t } := by
  unfold taskTimerTick
  rw [if_neg h.current_ne_zero, h.alive.length_eq,
    tickLoop_of_path h.ring.path h.ring.nodup (List.nodup_cons.1 h.ring.nodup).1
      (by rw [List.length_cons]; omega)]
  simp only [h.alive.mem_iff]

/-- There is nobody to wake. -/
theorem taskTimerTick_awake (h : Consistent img k buffers l)
    (hawake : ∀ t ∈ k.alive, (k.tasks t).state ≠ .sleeping) : k.taskTimerTick = k := by
  have htasks : (fun t => if t ∈ k.alive then k.woken t else k.tasks t) = k.tasks := by
    funext t
    split_ifs with ht
    · exact if_neg fun e => hawake t ht e.1
    · rfl
  rw [taskTimerTick_eq h, htasks]

/-- The tick changes no field of a task but its state. -/
theorem Consistent.taskTimerTick (h : Consistent img k buffers l) :
    Consistent img k.taskTimerTick buffers l := by
  rw [taskTimerTick_eq h]
  refine h.congr ?_ ?_ (fun t => ?_) h.owns
  · rfl
  · rfl
  · dsimp only
    unfold woken
    split_ifs <;> exact ⟨rfl, rfl, rfl⟩

/-! ### Creation -/

theorem Consistent.sameTasks {buffers' : List ℕ} (h : Consistent img k buffers l)
    (hs : SameTasks k k') (ho : Owns k'.heap (k.blocks img ++ buffers')) :
    Consistent img k' buffers' l :=
  h.congr hs.currentTask hs.alive (fun t => by rw [hs.tasks]; exact ⟨rfl, rfl, rfl⟩) ho

theorem Consistent.buffers_subset {buffers' : List ℕ} (h : Consistent img k buffers l)
    (hn : buffers'.Nodup) (hs : buffers' ⊆ buffers) : Consistent img k buffers' l := by
  refine h.sameTasks ⟨rfl, rfl, rfl, rfl, rfl, rfl⟩ (h.owns.of_subset ?_ ?_)
  · have hd := List.nodup_append.1 h.owns.nodup
    exact List.nodup_append.2 ⟨hd.1, hn, fun a ha b hb => hd.2.2 a ha b (hs hb)⟩
  · exact List.append_subset.2 ⟨List.subset_append_left .., fun x hx =>
      List.mem_append_right _ (hs hx)⟩

theorem Consistent.perm {buffers' : List ℕ} (h : Consistent img k buffers l)
    (hp : buffers.Perm buffers') : Consistent img k buffers' l := by
  have hn := (List.nodup_append.1 h.owns.nodup).2.1
  exact h.buffers_subset (hp.nodup_iff.1 hn) hp.symm.subset

/-- A block that `kmalloc` returns becomes a buffer. -/
theorem Consistent.kmalloc {bytes : UInt32} {p : ℕ} (h : Consistent img k buffers l)
    (hk : k.kmalloc img bytes = some (p, k')) :
    SameTasks k k' ∧ Consistent img k' (if p = 0 then buffers else p :: buffers) l := by
  obtain ⟨heap, m, rfl, _, hres⟩ := kmalloc_cases hk h.owns
  have hs : SameTasks k { k with heap := heap, machine := m } := ⟨rfl, rfl, rfl, rfl, rfl, rfl⟩
  refine ⟨hs, h.sameTasks hs ?_⟩
  obtain ⟨rfl, ho⟩ | ⟨hp, _, ho⟩ := hres
  · rw [if_pos rfl]
    exact ho
  · rw [if_neg hp]
    exact ho.perm List.perm_middle.symm

/-- A buffer is freed. -/
theorem Consistent.kfree {buffers' : List ℕ} {p : ℕ} (h : Consistent img k buffers l)
    (hp : buffers.Perm (p :: buffers')) : Consistent img (k.kfree p) buffers' l := by
  refine h.sameTasks ⟨rfl, rfl, rfl, rfl, rfl, rfl⟩ (Owns.kfree ?_)
  exact h.owns.perm ((List.Perm.append_left _ hp).trans List.perm_middle)

theorem Created.next_eq {t : ℕ} (h : Created k k' t) (x : ℕ) :
    (k'.tasks x).next = if x = k.currentTask then t
      else if x = t then (k.tasks k.currentTask).next else (k.tasks x).next := by
  split_ifs with h1 h2
  · rw [h1, h.current]
  · rw [h2, h.next]
    rfl
  · rw [h.others x h2 h1]

/-- No field but `next` changes in the tasks that were there. -/
theorem Created.old {t : ℕ} (h : Created k k' t) {x : ℕ} (hx : x ≠ t) :
    k'.tasks x = { k.tasks x with next := (k'.tasks x).next } := by
  by_cases hc : x = k.currentTask
  · rw [hc, h.current]
    rfl
  · rw [h.others x hx hc]

theorem not_mem_alive {t : ℕ} {ps : List ℕ} {heap : State} (hps : k.blocks img ⊆ ps)
    (ho : Owns heap (t :: ps)) : t ∉ k.alive := by
  intro hmem
  by_cases hk : t = img.kernelTask
  · have h1 := ho.ge (List.mem_cons_self ..)
    have h2 := kernelTask_lt img
    omega
  · exact (List.nodup_cons.1 ho.nodup).1 (hps (mem_blocks hmem hk).1)

theorem Created.blocks {t : ℕ} (h : Created k k' t) (hkt : t ≠ img.kernelTask)
    (hnew : t ∉ k.alive) :
    k'.blocks img = t :: (k'.tasks t).kernelStackBottom :: k.blocks img := by
  unfold Kernel.blocks
  rw [h.alive, blocksOf_cons hkt]
  congr 2
  refine blocksOf_congr fun x hx => ?_
  rw [h.old fun e => hnew (e ▸ hx)]

theorem Consistent.created {t kernelStackMem : ℕ} (h : Consistent img k buffers l)
    (hcr : Created k k' t) (hstack : (k'.tasks t).kernelStackBottom = kernelStackMem)
    (ho : Owns k'.heap (t :: kernelStackMem :: (k.blocks img ++ buffers))) :
    t ∉ k.alive ∧ Consistent img k' buffers (t :: l) := by
  have hnew : t ∉ k.alive := by
    have hps : k.blocks img ⊆ kernelStackMem :: (k.blocks img ++ buffers) := fun x hx =>
      List.mem_cons_of_mem _ (List.mem_append_left _ hx)
    exact not_mem_alive hps ho
  have hcur : t ≠ k.currentTask := fun e => hnew (e ▸ h.current_mem)
  have hkt : img.kernelTask ≠ t := fun e => hnew (e ▸ h.kernel)
  refine ⟨hnew, ?_, ?_, ?_, ?_, ?_⟩
  · rw [hcr.currentTask]
    refine h.ring.insert (fun hm => hnew (h.alive.mem_iff.2 hm)) ?_ ?_ fun x hx => ?_
    · simp only [nextOf, hcr.next_eq, if_true]
    · simp only [nextOf, hcr.next_eq, if_neg hcur, if_true]
    · have hxc : x ≠ k.currentTask := fun e => (List.nodup_cons.1 h.ring.nodup).1 (e ▸ hx)
      have hxt : x ≠ t := fun e => hnew (h.mem_iff.2 (Or.inr (e ▸ hx)))
      simp only [nextOf, hcr.next_eq, if_neg hxc, if_neg hxt]
  · rw [hcr.alive, hcr.currentTask]
    exact (h.alive.cons t).trans (List.Perm.swap ..)
  · rw [hcr.alive]
    exact List.mem_cons_of_mem _ h.kernel
  · rw [hcr.old hkt]
    exact h.kernelId
  · rw [hcr.blocks hkt.symm hnew, hstack]
    exact ho

end Kernel

end NosmeriOs.Tasks
