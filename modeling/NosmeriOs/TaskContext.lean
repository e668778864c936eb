import NosmeriOs.TaskRing

/-! # What the processor runs

`schedule` changes the states of two tasks, the loaded directory and the stack for interrupts
only where it finds them different; `ContextOk` says why that is enough.

* `ContextOk.step`: every step keeps it; `run_context`: it holds in every state that a run
  reaches.
* `dead_step`: a dead task stays dead, and once another task is the current one, it is not
  again. -/

namespace NosmeriOs.Tasks

open Vmm Vfs Heap Rings

namespace Kernel

variable {img : Image} {k k' : Kernel} {buffers l : List ℕ}

/-- The current task is what the processor runs. -/
structure ContextOk (k : Kernel) : Prop where
  running : ∀ t ∈ k.alive, (k.tasks t).state = .running → t = k.currentTask
  cr3 : k.machine.cr3 = k.current.cr3
  esp0 : k.current.isUser = true → k.esp0 = k.current.kernelStackTop

/-- No task starts to run, and the processor keeps the context. -/
theorem ContextOk.congr (h : ContextOk k) (hcur : k'.currentTask = k.currentTask)
    (hrun : ∀ t ∈ k'.alive, (k'.tasks t).state = .running →
      t ∈ k.alive ∧ (k.tasks t).state = .running)
    (hs : SameTask k.current k'.current) (hm : k'.machine.cr3 = k.machine.cr3)
    (he : k'.esp0 = k.esp0) : ContextOk k' := by
  refine ⟨fun t ht hr => ?_, ?_, fun hu => ?_⟩
  · rw [hcur]
    exact h.running t (hrun t ht hr).1 (hrun t ht hr).2
  · rw [hm, h.cr3, hs.cr3]
  · rw [he, h.esp0 (hs.isUser ▸ hu), hs.kernelStackTop]

theorem ContextOk.sameTasks (h : ContextOk k) (hs : SameTasks k k')
    (hm : k'.machine.cr3 = k.machine.cr3) : ContextOk k' := by
  refine h.congr hs.currentTask (fun t ht hr => ?_) ?_ hm hs.esp0
  · rw [hs.alive] at ht
    rw [hs.tasks] at hr
    exact ⟨ht, hr⟩
  · unfold Kernel.current
    rw [hs.tasks, hs.currentTask]
    exact .refl _

theorem ContextOk.created {t : ℕ} (h : ContextOk k) (hcr : Created k k' t)
    (hm : k'.machine.cr3 = k.machine.cr3) : ContextOk k' := by
  refine h.congr hcr.currentTask (fun x hx hr => ?_) ?_ hm hcr.esp0
  · rw [hcr.alive] at hx
    have hxt : x ≠ t := by
      rintro rfl
      rw [hcr.state] at hr
      cases hr
    rw [hcr.old hxt] at hr
    exact ⟨List.mem_of_ne_of_mem hxt hx, hr⟩
  · unfold Kernel.current
    rw [hcr.currentTask, hcr.current]
    exact ⟨rfl, rfl, rfl, rfl, rfl⟩

theorem ContextOk.killTask (h : ContextOk k) (hc : Consistent img k buffers l) (pid : UInt32) :
    ContextOk (k.killTask pid).2 := by
  obtain ⟨xs, t, ys, _, _, _, _, he⟩ | ⟨_, he⟩ := killTask_cases hc pid
  · rw [he]
    dsimp only
    generalize hprev : xs.getLastD k.currentTask = prev
    refine h.congr (currentTask_remove ..) (fun x hx hr => ?_) ?_ ?_ ?_
    · rw [remove_fields] at hr
      exact ⟨(remove_persists k t prev).alive.subset hx, hr⟩
    · unfold Kernel.current
      rw [currentTask_remove]
      exact (remove_persists k t prev).tasks _
    · rw [remove_eq]
      dsimp only
      split_ifs <;> rfl
    · rw [remove_eq]
  · rw [he]
    exact h

theorem ContextOk.kills (h : ContextOk k) (hc : Consistent img k buffers l) (hk : Kills k k') :
    ContextOk k' :=
  hk.induction hc (fun _ _ pid hc h => h.killTask hc pid) h

theorem ContextOk.switchTo {next : ℕ} (h : ContextOk k)
    (hk : k.switchTo k.currentTask next = some k') : ContextOk k' := by
  rw [switchTo_eq hk]
  unfold switched
  refine ⟨fun t ht hr => ?_, ?_, fun hu => ?_⟩
  · dsimp only at ht hr
    unfold switchedState at hr
    dsimp only
    by_contra hne
    rw [if_neg hne] at hr
    split_ifs at hr with hp
    -- the task that ran before was the current one, and is ready now
    obtain rfl := h.running t ht hr
    exact hp ⟨rfl, hr⟩
  · show (if k.current.cr3 ≠ (k.tasks next).cr3 then (k.tasks next).cr3 else k.machine.cr3)
      = (k.tasks next).cr3
    split_ifs with hcr
    · rfl
    · rw [h.cr3, not_not.1 hcr]
  · exact if_pos hu

theorem ContextOk.schedule (h : ContextOk k) (hc : Consistent img k buffers l)
    (hk : k.schedule = some k') : ContextOk k' := by
  obtain ⟨k₁, l₁, hkills, _, hcur, rfl | ⟨next, _, _, hs⟩⟩ := schedule_cases hk hc
  · exact h.kills hc hkills
  · rw [← hcur] at hs
    exact (h.kills hc hkills).switchTo hs

/-- The current task goes to sleep or dies. -/
theorem ContextOk.stop {st : TaskState} (h : ContextOk k) (hst : st ≠ .running)
    (wakeTick : UInt32) : ContextOk (k.stop st wakeTick) := by
  refine h.congr ?_ (fun t ht hr => ?_) ((stop_persists ..).tasks _) ?_ ?_
  · rfl
  · rw [tasks_stop] at hr
    split_ifs at hr
    · exact absurd hr hst
    · exact ⟨ht, hr⟩
  · rfl
  · rfl

theorem ContextOk.tick (h : ContextOk k) (hc : Consistent img k buffers l) :
    ContextOk k.taskTimerTick := by
  rw [taskTimerTick_eq hc]
  have hsame : ∀ t, SameTask (k.tasks t) (if t ∈ k.alive then k.woken t else k.tasks t) := by
    intro t
    unfold woken
    split_ifs <;> exact ⟨rfl, rfl, rfl, rfl, rfl⟩
  refine h.congr ?_ (fun t ht hr => ?_) ?_ ?_ ?_
  · rfl
  · refine ⟨ht, ?_⟩
    dsimp only at ht hr
    unfold woken at hr
    rw [if_pos ht] at hr
    split_ifs at hr
    exact hr
  · exact hsame _
  · rfl
  · rfl

/-! ### Tasks at rest -/

/-- Nothing has happened to `t`, nor to the clock, and `t` has not become the current task. -/
structure Rests (t : ℕ) (k k' : Kernel) : Prop where
  state : (k'.tasks t).state = (k.tasks t).state
  wakeTick : (k'.tasks t).wakeTick = (k.tasks t).wakeTick
  timerTicks : k'.timerTicks = k.timerTicks
  current : k.currentTask ≠ t → k'.currentTask ≠ t

/-- A task that cannot be switched to and is not the one switched from. -/
def AtRest (k : Kernel) (t : ℕ) : Prop :=
  (k.tasks t).state = .dead ∨ (k.tasks t).state = .sleeping

section rest
variable {t : ℕ}

theorem Rests.refl (k : Kernel) : Rests t k k := ⟨rfl, rfl, rfl, id⟩

theorem Rests.trans {k₁ k₂ k₃ : Kernel} (h : Rests t k₁ k₂) (h' : Rests t k₂ k₃) :
    Rests t k₁ k₃ :=
  ⟨h'.state.trans h.state, h'.wakeTick.trans h.wakeTick, h'.timerTicks.trans h.timerTicks,
    fun hc => h'.current (h.current hc)⟩

theorem Rests.atRest (h : Rests t k k') (ht : AtRest k t) : AtRest k' t := by
  unfold AtRest
  rw [h.state]
  exact ht

theorem SameTasks.rests (h : SameTasks k k') : Rests t k k' :=
  ⟨by rw [h.tasks], by rw [h.tasks], h.timerTicks, fun hc => by rwa [h.currentTask]⟩

theorem Created.rests {x : ℕ} (h : Created k k' x) (hx : x ∉ k.alive) (ht : t ∈ k.alive) :
    Rests t k k' := by
  have hold := h.old fun e => hx (e ▸ ht)
  exact ⟨by rw [hold], by rw [hold], h.timerTicks, fun hc => by rwa [h.currentTask]⟩

theorem killTask_rests (hc : Consistent img k buffers l) (pid : UInt32) :
    Rests t k (k.killTask pid).2 := by
  obtain ⟨xs, u, ys, _, _, _, _, he⟩ | ⟨_, he⟩ := killTask_cases hc pid
  · have hfields := remove_fields k u (xs.getLastD k.currentTask) t
    have hticks : (k.remove u (xs.getLastD k.currentTask)).timerTicks = k.timerTicks := by
      rw [remove_eq]
    rw [he]
    exact ⟨by rw [hfields], by rw [hfields], hticks, fun hc => by rwa [currentTask_remove]⟩
  · rw [he]
    exact .refl k

theorem Kills.rests (hk : Kills k k') (hc : Consistent img k buffers l) : Rests t k k' :=
  hk.induction hc (fun _ _ pid hc h => h.trans (killTask_rests hc pid)) (.refl k)

/-- A switch is to a ready task, and makes no task ready but a running one. -/
theorem switchTo_rests {next : ℕ} (hk : k.switchTo k.currentTask next = some k')
    (hn : (k.tasks next).state = .ready) (ht : AtRest k t) : Rests t k k' := by
  have hne : t ≠ next := by
    rintro rfl
    rcases ht with hs | hs <;> exact absurd (hn.symm.trans hs) (by decide)
  have hrun : ¬ (t = k.currentTask ∧ (k.tasks k.currentTask).state = .running) := by
    rintro ⟨rfl, hr⟩
    rcases ht with hs | hs <;> exact absurd (hr.symm.trans hs) (by decide)
  rw [switchTo_eq hk]
  refine ⟨?_, rfl, rfl, fun _ => hne.symm⟩
  change k.switchedState k.currentTask next t = _
  unfold switchedState
  rw [if_neg hne, if_neg hrun]

theorem schedule_rests (hk : k.schedule = some k') (hc : Consistent img k buffers l)
    (ht : AtRest k t) : Rests t k k' := by
  obtain ⟨k₁, l₁, hkills, _, hcur, rfl | ⟨next, _, hn, hs⟩⟩ := schedule_cases hk hc
  · exact hkills.rests hc
  · have h1 : Rests t k k₁ := hkills.rests hc
    rw [← hcur] at hs
    exact h1.trans (switchTo_rests hs hn (h1.atRest ht))

/-- Another task stops. -/
theorem stop_rests {st : TaskState} {wakeTick : UInt32} (hne : t ≠ k.currentTask) :
    Rests t k (k.stop st wakeTick) := by
  have htask : (k.stop st wakeTick).tasks t = k.tasks t := by rw [tasks_stop, if_neg hne]
  exact ⟨by rw [htask], by rw [htask], rfl, id⟩

/-- No time has come for `t`. -/
theorem taskTimerTick_rests (hc : Consistent img k buffers l) (ht : k.woken t = k.tasks t) :
    Rests t k k.taskTimerTick := by
  have htask : k.taskTimerTick.tasks t = k.tasks t := by
    rw [taskTimerTick_eq hc]
    dsimp only
    rw [ht, ite_self]
  have hsame : k.taskTimerTick.timerTicks = k.timerTicks ∧
      k.taskTimerTick.currentTask = k.currentTask := by
    rw [taskTimerTick_eq hc]
    exact ⟨rfl, rfl⟩
  exact ⟨by rw [htask], by rw [htask], hsame.1, fun hne => by rwa [hsame.2]⟩

end rest

/-! ### Dead tasks -/

/-- `t`, which is dead in `k`, is so in `k'`, and it has not become the current task. -/
structure StaysDead (t : ℕ) (k k' : Kernel) : Prop where
  dead : (k'.tasks t).state = .dead
  current : k.currentTask ≠ t → k'.currentTask ≠ t

theorem StaysDead.trans {t : ℕ} {k₁ k₂ k₃ : Kernel} (h : StaysDead t k₁ k₂)
    (h' : StaysDead t k₂ k₃) : StaysDead t k₁ k₃ :=
  ⟨h'.dead, fun hc => h'.current (h.current hc)⟩

theorem Rests.staysDead {t : ℕ} (h : Rests t k k') (hd : (k.tasks t).state = .dead) :
    StaysDead t k k' :=
  ⟨h.state.trans hd, h.current⟩

theorem woken_of_dead {t : ℕ} (hd : (k.tasks t).state = .dead) : k.woken t = k.tasks t := by
  unfold woken
  rw [if_neg]
  rintro ⟨hs, -⟩
  rw [hd] at hs
  cases hs

end Kernel

/-! ### Steps -/

namespace System

variable {img : Image} {s s' : System} {op : Op}

theorem contextOk_step {l : List ℕ} (hc : s.kernel.Consistent img s.buffers l)
    (h : s.kernel.ContextOk) (hs : s.step img op = some s') : s'.kernel.ContextOk := by
  have hheld := hc.currentHeld
  cases op with
  | createTask =>
      obtain ⟨⟨t, k⟩, hk, rfl⟩ := Option.map_eq_some_iff.1 hs
      obtain ⟨hg, ⟨_, hs, _⟩ | ⟨_, hcr, _⟩⟩ := Kernel.createTask_cases hk hheld hc.owns
      · exact h.sameTasks hs hg.keeps.cr3
      · exact h.created hcr hg.keeps.cr3
  | createUserTask =>
      obtain ⟨⟨t, k⟩, hk, rfl⟩ := Option.map_eq_some_iff.1 hs
      obtain ⟨_, hs, _, ha⟩ | ⟨_, hcr, _, _, _, _, _, hsp⟩ :=
        Kernel.createUserTask_cases hk hheld hc.owns
      · exact h.sameTasks hs ha.keeps.cr3
      · exact h.created hcr (hsp.keeps h.cr3).cr3
  | createUserProcess file =>
      obtain ⟨⟨t, k⟩, hk, rfl⟩ := Option.map_eq_some_iff.1 hs
      obtain ⟨_, hs, _, hg | ha⟩ | ⟨_, hcr, _, _, _, _, m, _, _, hsp, _, hl⟩ :=
        Kernel.createUserProcess_cases hk hheld hc.owns
      · exact h.sameTasks hs hg.keeps.cr3
      · exact h.sameTasks hs ha.keeps.cr3
      · have hm := hsp.keeps h.cr3
        exact h.created hcr ((hl.keeps (hm.cr3.trans h.cr3)).cr3.trans hm.cr3)
  | killTask pid =>
      cases hs
      exact h.killTask hc pid
  | exitTask =>
      obtain ⟨k, hk, rfl⟩ := Option.map_eq_some_iff.1 hs
      exact (h.stop (by decide) _).schedule (hc.stop _ _) hk
  | taskSleep ms =>
      obtain ⟨k, hk, rfl⟩ := Option.map_eq_some_iff.1 hs
      rw [Kernel.taskSleep_eq hc] at hk
      exact (h.stop (by decide) _).schedule (hc.stop _ _) hk
  | taskTimerTick =>
      cases hs
      exact h.tick hc
  | timerHandler =>
      obtain ⟨k, hk, rfl⟩ := Option.map_eq_some_iff.1 hs
      obtain ⟨h', _⟩ := hc.tick
      have hctx : Kernel.ContextOk { s.kernel with timerTicks := s.kernel.timerTicks + 1 } :=
        ⟨h.running, h.cr3, h.esp0⟩
      exact (hctx.tick h').schedule h'.taskTimerTick hk
  | schedule =>
      obtain ⟨k, hk, rfl⟩ := Option.map_eq_some_iff.1 hs
      exact h.schedule hc hk
  | pageFault addr =>
      obtain ⟨m, hm, rfl⟩ := Option.map_eq_some_iff.1 hs
      exact h.sameTasks ⟨rfl, rfl, rfl, rfl, rfl, rfl⟩ (keeps_pageFaultHandler hm).cr3
  | kmalloc bytes =>
      obtain ⟨⟨p, k⟩, hk, rfl⟩ := Option.map_eq_some_iff.1 hs
      obtain ⟨heap, m, rfl, hg, _⟩ := Kernel.kmalloc_cases hk hc.owns
      exact h.sameTasks ⟨rfl, rfl, rfl, rfl, rfl, rfl⟩ hg.keeps.cr3
  | kfree i =>
      simp only [step] at hs
      cases hi : s.buffers[i]? with
      | none =>
          rw [hi] at hs
          cases hs
          exact h
      | some p =>
          rw [hi] at hs
          cases hs
          exact h.sameTasks ⟨rfl, rfl, rfl, rfl, rfl, rfl⟩ rfl

/-- What comes to a task that calls nothing: the timer and faults interrupt it, and
`timer_handler` calls the others; its own loop may call `schedule`. -/
def IsInterrupt : Op → Prop
  | .taskTimerTick | .timerHandler | .schedule | .pageFault _ => True
  | _ => False

/-- Any step but a tick leaves a task at rest alone, if it is not a call of its own. -/
theorem rests_step {t : ℕ} (hi : s.Inv img) (hs : s.step img op = some s')
    (hcall : s.kernel.currentTask = t → IsInterrupt op) (ht : t ∈ s.kernel.alive)
    (hrest : s.kernel.AtRest t) (h1 : op ≠ .taskTimerTick) (h2 : op ≠ .timerHandler) :
    s.kernel.Rests t s'.kernel := by
  obtain ⟨l, hc⟩ := hi.list
  have hheld := hc.currentHeld
  cases op with
  | createTask =>
      obtain ⟨⟨x, k⟩, hk, rfl⟩ := Option.map_eq_some_iff.1 hs
      obtain ⟨_, ⟨_, hs, _⟩ | ⟨_, hcr, _, hh, ho⟩⟩ := Kernel.createTask_cases hk hheld hc.owns
      · exact hs.rests
      · exact hcr.rests (hc.created hcr hh.kernelStack ho.left).1 ht
  | createUserTask =>
      obtain ⟨⟨x, k⟩, hk, rfl⟩ := Option.map_eq_some_iff.1 hs
      obtain ⟨_, hs, _⟩ | ⟨_, hcr, _, _, _, hh, ho, _⟩ :=
        Kernel.createUserTask_cases hk hheld hc.owns
      · exact hs.rests
      · exact hcr.rests (hc.created hcr hh.kernelStack ho.left).1 ht
  | createUserProcess file =>
      obtain ⟨⟨x, k⟩, hk, rfl⟩ := Option.map_eq_some_iff.1 hs
      obtain ⟨_, hs, _⟩ | ⟨_, hcr, _, _, _, _, _, hh, ho, _⟩ :=
        Kernel.createUserProcess_cases hk hheld hc.owns
      · exact hs.rests
      · exact hcr.rests (hc.created hcr hh.kernelStack ho.left).1 ht
  | killTask pid =>
      cases hs
      exact Kernel.killTask_rests hc pid
  | exitTask =>
      obtain ⟨k, hk, rfl⟩ := Option.map_eq_some_iff.1 hs
      have hstop : s.kernel.Rests t (s.kernel.stop .dead s.kernel.current.wakeTick) :=
        Kernel.stop_rests fun e => hcall e.symm
      exact hstop.trans (Kernel.schedule_rests hk (hc.stop _ _) (hstop.atRest hrest))
  | taskSleep ms =>
      obtain ⟨k, hk, rfl⟩ := Option.map_eq_some_iff.1 hs
      rw [Kernel.taskSleep_eq hc] at hk
      have hstop : s.kernel.Rests t
          (s.kernel.stop .sleeping (s.kernel.timerTicks + Kernel.sleepTicks ms)) :=
        Kernel.stop_rests fun e => hcall e.symm
      exact hstop.trans (Kernel.schedule_rests hk (hc.stop _ _) (hstop.atRest hrest))
  | taskTimerTick => exact absurd rfl h1
  | timerHandler => exact absurd rfl h2
  | schedule =>
      obtain ⟨k, hk, rfl⟩ := Option.map_eq_some_iff.1 hs
      exact Kernel.schedule_rests hk hc hrest
  | pageFault addr =>
      obtain ⟨m, _, rfl⟩ := Option.map_eq_some_iff.1 hs
      exact ⟨rfl, rfl, rfl, id⟩
  | kmalloc bytes =>
      obtain ⟨⟨p, k⟩, hk, rfl⟩ := Option.map_eq_some_iff.1 hs
      obtain ⟨heap, m, rfl, _, _⟩ := Kernel.kmalloc_cases hk hc.owns
      exact ⟨rfl, rfl, rfl, id⟩
  | kfree i =>
      simp only [step] at hs
      cases hi : s.buffers[i]? with
      | none =>
          rw [hi] at hs
          cases hs
          exact .refl _
      | some p =>
          rw [hi] at hs
          cases hs
          exact ⟨rfl, rfl, rfl, id⟩

/-- What can come next: after `exit_task` the current task only halts, and calls no function; the
timer and faults interrupt it, and `timer_handler` calls the others. -/
def CanCall (s : System) : Op → Prop
  | .taskTimerTick | .timerHandler | .schedule | .pageFault _ => True
  | _ => s.kernel.current.state ≠ .dead

theorem CanCall.isInterrupt {t : ℕ} (hcall : s.CanCall op)
    (hd : (s.kernel.tasks t).state = .dead) (ht : s.kernel.currentTask = t) : IsInterrupt op := by
  have hcur : s.kernel.current.state = .dead := by
    unfold Kernel.current
    rw [ht]
    exact hd
  cases op with
  | taskTimerTick | timerHandler | schedule | pageFault => trivial
  | createTask | createUserTask | createUserProcess | killTask | exitTask | taskSleep | kmalloc
  | kfree => exact hcall hcur

theorem staysDead_step {t : ℕ} (hi : s.Inv img) (hs : s.step img op = some s')
    (hcall : s.CanCall op) (ht : t ∈ s.kernel.alive)
    (hd : (s.kernel.tasks t).state = .dead) : s.kernel.StaysDead t s'.kernel := by
  obtain ⟨l, hc⟩ := hi.list
  by_cases h1 : op = .taskTimerTick
  · subst h1
    cases hs
    exact (Kernel.taskTimerTick_rests hc (Kernel.woken_of_dead hd)).staysDead hd
  by_cases h2 : op = .timerHandler
  · subst h2
    obtain ⟨k, hk, rfl⟩ := Option.map_eq_some_iff.1 hs
    obtain ⟨h', _⟩ := hc.tick
    have htick := (Kernel.taskTimerTick_rests h' (Kernel.woken_of_dead hd)).staysDead hd
    have hsched := Kernel.schedule_rests hk h'.taskTimerTick (Or.inl htick.dead)
    exact ⟨hsched.state.trans htick.dead, fun hne => hsched.current (htick.current hne)⟩
  exact (rests_step hi hs (hcall.isInterrupt hd) ht (Or.inl hd) h1 h2).staysDead hd

/-- Runs in which the task `t` is never removed, and no dead task makes a call. -/
inductive RunWith (img : Image) (t : ℕ) : System → System → Prop
  | refl (s : System) : t ∈ s.kernel.alive → RunWith img t s s
  | tail {s s₁ s₂ : System} {op : Op} : RunWith img t s s₁ → s₁.CanCall op →
      s₁.step img op = some s₂ → t ∈ s₂.kernel.alive → RunWith img t s s₂

theorem RunWith.staysDead {t : ℕ} (hr : RunWith img t s s') (hi : s.Inv img)
    (hd : (s.kernel.tasks t).state = .dead) :
    (s'.Inv img ∧ t ∈ s'.kernel.alive) ∧ s.kernel.StaysDead t s'.kernel := by
  induction hr with
  | refl ht => exact ⟨⟨hi, ht⟩, hd, id⟩
  | tail _ hcall hs ht ih =>
      obtain ⟨⟨hi₁, ht₁⟩, h₁⟩ := ih
      exact ⟨⟨hi₁.step hs, ht⟩, h₁.trans (staysDead_step hi₁ hs hcall ht₁ h₁.dead)⟩

end System

variable {img : Image} {k₀ k : Kernel} {magic : UInt32} {mbi : Pmm.MultibootInfo}

theorem Kernel.Booted.contextOk (h : k.Booted img) (hm : k.machine.cr3 = k.current.cr3) :
    k.ContextOk := by
  refine ⟨fun t ht _ => ?_, hm, fun hu => ?_⟩
  · rw [h.alive, List.mem_singleton] at ht
    rw [ht, h.current]
  · rw [h.isUser] at hu
    cases hu

/-- `init_tasking` leaves the kernel's directory loaded. -/
theorem Kernel.contextOk_boot (h : k₀.boot img magic mbi = some k) : k.ContextOk := by
  obtain ⟨_, m₁, m₂, halloc, hmap, hg, hbooted⟩ := Kernel.boot_cases h
  refine hbooted.contextOk ?_
  rw [hbooted.cr3, hg.keeps.cr3, (keeps_vmmMapPage hmap).cr3, (Keeps.of_allocPage halloc).cr3]
  rfl

/-- **The context of the current task**: in every state that a run from `init_tasking` on
reaches, only the current task can be running, its directory is loaded, and interrupts of a user
task go to its kernel stack; and a task that is dead there stays dead as long as it exists, and
does not become the current task again. -/
theorem run_context (hboot : k₀.boot img magic mbi = some k) {ops : List Op} {s : System}
    (hrun : (System.start k).run img ops = some s) :
    s.kernel.ContextOk ∧ ∀ t s', System.RunWith img t s s' → (s.kernel.tasks t).state = .dead →
      (s'.kernel.tasks t).state = .dead ∧
        (s.kernel.currentTask ≠ t → s'.kernel.currentTask ≠ t) := by
  obtain ⟨_, _, _, _, _, _, hbooted⟩ := Kernel.boot_cases hboot
  obtain ⟨hi, hctx⟩ : s.Inv img ∧ s.kernel.ContextOk :=
    System.run_induction (P := fun s => s.Inv img ∧ s.kernel.ContextOk)
      (fun _ _ _ h hs => ⟨h.1.step hs, System.contextOk_step h.1.list.choose_spec h.2 hs⟩)
      ⟨hbooted.inv, Kernel.contextOk_boot hboot⟩ hrun
  refine ⟨hctx, fun t s' hr hd => ?_⟩
  have h := (hr.staysDead hi hd).2
  exact ⟨h.dead, h.current⟩

theorem Kernel.Persists.dirs {k k' : Kernel} (h : k.Persists k')
    (hd : ∀ t ∈ k.alive, (k.tasks t).cr3 ≠ 0) : ∀ t ∈ k'.alive, (k'.tasks t).cr3 ≠ 0 := by
  intro t ht
  rw [(h.tasks t).cr3]
  exact hd t (h.alive.subset ht)

/-- After the kernel task has created another one. -/
structure OneTask (k : Kernel) (s : System) (t : ℕ) : Prop where
  boot : blankKernel.boot smallImage Pmm.MULTIBOOT_BOOTLOADER_MAGIC smallMap = some k
  step : (System.start k).step smallImage .createTask = some s
  created : s.created = 1
  alive : s.kernel.alive = [t, smallImage.kernelTask]
  current : s.kernel.currentTask = smallImage.kernelTask
  ready : (s.kernel.tasks t).state = .ready
  directory : ∀ x ∈ s.kernel.alive, (s.kernel.tasks x).cr3 ≠ 0

theorem OneTask.inv {k : Kernel} {s : System} {t : ℕ} (h : OneTask k s t) : s.Inv smallImage := by
  obtain ⟨_, _, _, _, _, _, hbooted⟩ := Kernel.boot_cases h.boot
  have hi : (System.start k).Inv smallImage := hbooted.inv
  exact hi.step h.step

theorem exists_oneTask : ∃ k s t, OneTask k s t := by
  obtain ⟨k, hboot, hcalm⟩ := blankKernel_boot
  obtain ⟨_, _, _, _, _, _, hbooted⟩ := Kernel.boot_cases hboot
  have hi : (System.start k).Inv smallImage := hbooted.inv
  obtain ⟨l, hc⟩ := hi.list
  obtain ⟨⟨t, k₁⟩, he, ht, _⟩ :=
    @Kernel.createTask_of_room smallImage k 3800 2000 hcalm.room (by omega)
  obtain ⟨_, ⟨h0, _⟩ | ⟨_, hcr, kstack, hh, ho⟩⟩ :=
    Kernel.createTask_cases he hc.currentHeld hc.owns
  · exact absurd h0 ht
  obtain ⟨hnew, -⟩ := hc.created hcr hh.kernelStack ho.left
  have halive : k₁.alive = [t, smallImage.kernelTask] := by
    rw [hcr.alive, hbooted.alive]
  have hkernel : (k.tasks smallImage.kernelTask).cr3 ≠ 0 := by
    have h := hcalm.cr3
    unfold Kernel.current at h
    rw [hbooted.current] at h
    rw [h]
    exact hcalm.cr3_ne
  refine ⟨k, (System.start k).withTask (t, k₁), t, hboot, ?_, if_neg ht, halive,
    hcr.currentTask.trans hbooted.current, hcr.state, fun x hx => ?_⟩
  · simp only [System.step, System.start, he, Option.map_some]
  -- the new task runs in the kernel's directory
  · replace hx : x ∈ k₁.alive := hx
    show (k₁.tasks x).cr3 ≠ 0
    rw [halive, List.mem_pair] at hx
    obtain rfl | rfl := hx
    · rw [hh.cr3]
      exact hkernel
    · have hne : smallImage.kernelTask ≠ t := by
        rintro rfl
        exact hnew (hbooted.alive ▸ List.mem_cons_self ..)
      rw [hcr.old hne]
      exact hkernel

/-- After the kernel task has created another one and exited, a tick comes. -/
theorem run_context_exit : ∃ k s s',
    blankKernel.boot smallImage Pmm.MULTIBOOT_BOOTLOADER_MAGIC smallMap = some k ∧
    (System.start k).run smallImage [.createTask, .exitTask] = some s ∧
    System.RunWith smallImage smallImage.kernelTask s s' ∧
    (s.kernel.tasks smallImage.kernelTask).state = .dead ∧
    s.kernel.ContextOk ∧ (s'.kernel.tasks smallImage.kernelTask).state = .dead := by
  obtain ⟨k, s, t, h⟩ := exists_oneTask
  obtain ⟨l, hc⟩ := h.inv.list
  -- the new task is switched to when the kernel task exits
  have hstop := hc.stop .dead s.kernel.current.wakeTick
  have hdir := (Kernel.stop_persists s.kernel .dead s.kernel.current.wakeTick).dirs h.directory
  obtain ⟨k₂, hk₂⟩ := Kernel.exists_schedule hstop hdir
  have hd : ((s.kernel.stop .dead s.kernel.current.wakeTick).tasks smallImage.kernelTask).state =
      .dead := by
    rw [Kernel.tasks_stop, if_pos h.current.symm]
  have hd₂ := (Kernel.schedule_rests hk₂ hstop (Or.inl hd)).state.trans hd
  obtain ⟨l₂, hc₂⟩ := hstop.schedule hk₂
  have hdir₂ := (Kernel.schedule_persists hk₂ hstop).dirs hdir
  have htick := hc₂.tick
  have hdir₃ := ((htick.2.trans (Kernel.taskTimerTick_persists htick.1))).dirs hdir₂
  obtain ⟨k₃, hk₃⟩ := Kernel.exists_schedule htick.1.taskTimerTick hdir₃
  have h2 : s.step smallImage .exitTask = some (s.withKernel k₂) := by
    simp only [System.step, Kernel.exitTask_eq, hk₂, Option.map_some]
  have h3 : (s.withKernel k₂).step smallImage .timerHandler = some (s.withKernel k₃) := by
    simp only [System.step, System.withKernel, Kernel.timerHandler, hk₃, Option.map_some]
  have hrun : (System.start k).run smallImage [.createTask, .exitTask] =
      some (s.withKernel k₂) := by
    rw [System.run_cons h.step, System.run_cons h2, System.run_nil]
  obtain ⟨l₃, hc₃⟩ := htick.1.taskTimerTick.schedule hk₃
  have hr : System.RunWith smallImage smallImage.kernelTask (s.withKernel k₂)
      (s.withKernel k₃) := by
    refine System.RunWith.tail (.refl _ hc₂.kernel) ?_ h3 hc₃.kernel
    exact trivial
  obtain ⟨hctx, hdead⟩ := run_context h.boot hrun
  exact ⟨k, _, _, h.boot, hrun, hr, hd₂, hctx, (hdead _ _ hr hd₂).1⟩

end NosmeriOs.Tasks
