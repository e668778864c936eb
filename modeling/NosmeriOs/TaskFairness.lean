import NosmeriOs.TaskSchedule
import NosmeriOs.TaskContext

/-! # No task waits forever

`schedule` goes round the ring, and new tasks are put behind the current one, so a task that is
ready can only be passed over by the tasks that stand before it.

* `Waits k t n`: the task `t` is ready, and `n` tasks stand before it.
* `Waits.schedule`: a call of `schedule` picks it or brings it nearer.  `waits_step` says so of
  all steps, `waits_run` of runs.
* `run_bounded_waiting`: the number of calls after which it must have been picked. -/

namespace NosmeriOs.Tasks

open Vmm Vfs Heap Rings

namespace Kernel

structure Waits (k : Kernel) (t n : ℕ) : Prop where
  ready : (k.tasks t).state = .ready
  ring : ∃ xs ys, Ring k.nextOf k.currentTask (xs ++ t :: ys) ∧ xs.length = n

variable {img : Image} {k k' : Kernel} {buffers l : List ℕ} {t n : ℕ}

theorem Waits.congr (h : Waits k t n) (hcur : k'.currentTask = k.currentTask)
    (hnext : ∀ x, (k'.tasks x).next = (k.tasks x).next) (hready : (k'.tasks t).state = .ready) :
    Waits k' t n := by
  obtain ⟨-, xs, ys, hring, hn⟩ := h
  refine ⟨hready, xs, ys, ?_, hn⟩
  rw [hcur]
  exact hring.congr fun x _ => hnext x

/-- A kernel has one ring. -/
theorem Waits.split (h : Waits k t n) (hring : Ring k.nextOf k.currentTask l) :
    ∃ xs ys, l = xs ++ t :: ys ∧ xs.length = n := by
  obtain ⟨-, xs, ys, hring', hn⟩ := h
  refine ⟨xs, ys, ?_, hn⟩
  exact hring.path.unique hring'.path (List.nodup_cons.1 hring.nodup).1
    (List.nodup_cons.1 hring'.nodup).1

theorem exists_waits (h : Consistent img k buffers l) (ht : t ∈ k.alive)
    (hcur : k.currentTask ≠ t) (hready : (k.tasks t).state = .ready) :
    ∃ n, n + 2 ≤ k.alive.length ∧ Waits k t n := by
  have hmem : t ∈ l := (h.mem_iff.1 ht).resolve_left (Ne.symm hcur)
  obtain ⟨xs, ys, rfl⟩ := List.append_of_mem hmem
  refine ⟨xs.length, ?_, hready, xs, ys, h.ring, rfl⟩
  rw [h.alive.length_eq, List.length_cons, List.length_append, List.length_cons]
  omega

/-! ### `schedule` -/

theorem WellFormed.congr (h : WellFormed k l) (hcur : k'.currentTask = k.currentTask)
    (halive : k'.alive = k.alive)
    (htasks : ∀ t, (k'.tasks t).next = (k.tasks t).next ∧ (k'.tasks t).id = (k.tasks t).id) :
    WellFormed k' l := by
  refine ⟨?_, ?_, ?_, ?_⟩
  · rw [hcur]
    exact h.current
  · rw [hcur]
    exact h.ring.congr fun x _ => (htasks x).1
  · rw [halive, hcur]
    exact h.alive
  · rw [halive, funext fun t => (htasks t).2]
    exact h.ids

/-- What the search leaves of the ring, in which the first ready task is `u`. -/
theorem reaps_before {as bs : List ℕ} {u : ℕ} (h : WellFormed k (as ++ u :: bs))
    (hfirst : ∀ x ∈ as, ¬ k.isReady x = true) (hu : k.isReady u = true) :
    ∃ as', Ring (k.reapAll (k.reaped (as ++ u :: bs))).nextOf k.currentTask (as' ++ u :: bs) ∧
      ∀ x, ((k.reapAll (k.reaped (as ++ u :: bs))).tasks x).state = (k.tasks x).state := by
  have hreaps : Reaps k (k.reapAll (k.reaped (as ++ u :: bs))) (as ++ u :: bs)
      (k.reaped (as ++ u :: bs)) := (@scheduleLoop_eq k [] _ _ h (Nat.lt_succ_self _)).2
  have htake : (as ++ u :: bs).takeWhile (fun t => !k.isReady t) = as := by
    rw [List.takeWhile_append_of_pos fun x hx => by simpa using hfirst x hx,
      List.takeWhile_cons_of_neg (by simpa using hu), List.append_nil]
  have hreaped : k.reaped (as ++ u :: bs) = as.filter k.isReapable := by
    rw [reaped, htake]
  have hdisjoint := (List.nodup_append.1 (List.nodup_cons.1 h.ring.nodup).2).2.2
  have hkeep : (u :: bs).filter (· ∉ k.reaped (as ++ u :: bs)) = u :: bs := by
    refine List.filter_eq_self.2 fun x hx => decide_eq_true fun hr => ?_
    rw [hreaped] at hr
    exact hdisjoint x (List.mem_of_mem_filter hr) x hx rfl
  refine ⟨as.filter (· ∉ k.reaped (as ++ u :: bs)), ?_, fun x => by rw [hreaps.tasks x]⟩
  have hring := hreaps.wellFormed.ring
  rwa [List.filter_append, hkeep, hreaps.current] at hring

/-- A call of `schedule` picks the task or brings it nearer. -/
theorem Waits.schedule (hw : Waits k t n) (h : WellFormed k l) (hk : k.schedule = some k') :
    k'.currentTask = t ∨ ∃ m < n, Waits k' t m := by
  obtain ⟨xs, ys, rfl, rfl⟩ := hw.split h.ring
  have hready : k.isReady t = true := decide_eq_true hw.ready
  rw [schedule_eq_switchTo h (by simp)] at hk
  by_cases hall : ∀ x ∈ xs, ¬ k.isReady x = true
  · -- it is the first one that is ready
    have hchosen : k.chosen (xs ++ t :: ys) = some t := by
      rw [chosen, List.append_assoc, List.find?_append, List.find?_eq_none.2 hall, List.cons_append,
        List.find?_cons_of_pos hready]
      rfl
    rw [hchosen] at hk
    rw [switchTo_eq hk]
    exact Or.inl rfl
  · obtain ⟨as, u, bs, rfl, has, hu⟩ : ∃ as u bs, xs = as ++ u :: bs ∧
        (∀ x ∈ as, ¬ k.isReady x = true) ∧ k.isReady u = true := by
      push Not at hall
      obtain ⟨x, hx, hr⟩ := hall
      obtain ⟨u, hfind⟩ := Option.isSome_iff_exists.1 (List.find?_isSome.2 ⟨x, hx, hr⟩)
      obtain ⟨hu, as, bs, he, has⟩ := List.find?_eq_some_iff_append.1 hfind
      exact ⟨as, u, bs, he, fun x hx => by simpa using has x hx, hu⟩
    have hsplit : (as ++ u :: bs) ++ t :: ys = as ++ u :: (bs ++ t :: ys) := by simp
    rw [hsplit] at h hk
    have hchosen : k.chosen (as ++ u :: (bs ++ t :: ys)) = some u := by
      rw [chosen, List.append_assoc, List.find?_append, List.find?_eq_none.2 has, List.cons_append,
        List.find?_cons_of_pos hu]
      rfl
    rw [hchosen] at hk
    rw [switchTo_eq hk]
    obtain ⟨as', hring, hstates⟩ := reaps_before h has hu
    have hnodup := h.ring.nodup
    have htu : t ≠ u := by
      rintro rfl
      simp [List.nodup_append] at hnodup
    have htc : t ≠ k.currentTask := by
      rintro rfl
      simp [List.nodup_append] at hnodup
    refine Or.inr ⟨bs.length, ?_, ?_, bs, ys ++ k.currentTask :: as', ?_, rfl⟩
    · rw [List.length_append, List.length_cons]
      omega
    · show switchedState _ _ _ _ = _
      rw [switchedState, if_neg htu, if_neg fun hc => htc hc.1, hstates]
      exact hw.ready
    · have hrot := hring.rotate
      rw [List.append_assoc, List.cons_append] at hrot
      exact hrot.congr fun _ _ => rfl

/-! ### The other steps -/

theorem Waits.remove {xs ys : List ℕ} {u : ℕ} (hw : Waits k t n)
    (hring : Ring k.nextOf k.currentTask (xs ++ u :: ys)) (hne : t ≠ u) :
    ∃ m ≤ n, Waits (k.remove u (xs.getLastD k.currentTask)) t m := by
  obtain ⟨as, bs, he, rfl⟩ := hw.split hring
  have hring' := ring_remove hring
  have hready : ((k.remove u (xs.getLastD k.currentTask)).tasks t).state = .ready := by
    rw [remove_fields]
    exact hw.ready
  obtain ⟨cs, rfl, hc⟩ | ⟨cs, rfl, hc⟩ := List.append_eq_append_iff.1 he
  · cases cs with
    | nil => exact absurd (List.cons.inj hc).1.symm hne
    | cons c cs =>
        obtain ⟨rfl, rfl⟩ := List.cons.inj hc
        refine ⟨(xs ++ cs).length, by simp, hready, xs ++ cs, bs, ?_, rfl⟩
        rwa [currentTask_remove, List.append_assoc]
  · cases cs with
    | nil => exact absurd (List.cons.inj hc).1 hne
    | cons c cs =>
        obtain ⟨rfl, rfl⟩ := List.cons.inj hc
        rw [List.append_assoc, List.cons_append] at hring'
        refine ⟨as.length, le_rfl, hready, as, cs ++ ys, ?_, rfl⟩
        rwa [currentTask_remove]

theorem Waits.killTask (hw : Waits k t n) (h : Consistent img k buffers l) {pid : UInt32}
    (ht : t ∈ (k.killTask pid).2.alive) : ∃ m ≤ n, Waits (k.killTask pid).2 t m := by
  obtain ⟨xs, u, ys, rfl, -, -, -, he⟩ | ⟨-, he⟩ := killTask_cases h pid
  · rw [he] at ht ⊢
    refine hw.remove h.ring ?_
    rintro rfl
    rw [remove_eq] at ht
    exact h.nodup.not_mem_erase ht
  · rw [he]
    exact ⟨n, le_rfl, hw⟩

theorem Waits.taskTimerTick (hw : Waits k t n) (h : Consistent img k buffers l) :
    Waits k.taskTimerTick t n := by
  rw [taskTimerTick_eq h]
  refine hw.congr rfl (fun x => ?_) ?_
  · dsimp only
    split_ifs
    · exact next_woken k x
    · rfl
  · dsimp only
    unfold woken
    split_ifs
    · rfl
    · exact hw.ready
    · exact hw.ready

theorem Waits.stop (hw : Waits k t n) (hcur : k.currentTask ≠ t) (st : TaskState)
    (wakeTick : UInt32) : Waits (k.stop st wakeTick) t n := by
  refine hw.congr rfl (fun x => ?_) ?_
  · rw [tasks_stop]
    split_ifs with hx
    · rw [hx]
      rfl
    · rfl
  · rw [tasks_stop, if_neg (Ne.symm hcur)]
    exact hw.ready

theorem WellFormed.stop (h : WellFormed k l) (st : TaskState) (wakeTick : UInt32) :
    WellFormed (k.stop st wakeTick) l := by
  refine h.congr rfl rfl fun x => ?_
  rw [tasks_stop]
  split_ifs with hx
  · rw [hx]
    exact ⟨rfl, rfl⟩
  · exact ⟨rfl, rfl⟩

theorem WellFormed.taskTimerTick (h : WellFormed k l) (hc : Consistent img k buffers l) :
    WellFormed k.taskTimerTick l := by
  rw [taskTimerTick_eq hc]
  refine h.congr rfl rfl fun x => ?_
  dsimp only
  unfold woken
  split_ifs <;> exact ⟨rfl, rfl⟩

theorem Waits.sameTasks (hw : Waits k t n) (h : SameTasks k k') : Waits k' t n := by
  refine hw.congr h.currentTask (fun x => ?_) ?_
  · rw [h.tasks]
  · rw [h.tasks]
    exact hw.ready

/-- A new task comes before all others. -/
theorem Waits.created {u kernelStackMem : ℕ} (hw : Waits k t n) (h : Consistent img k buffers l)
    (hcr : Created k k' u) (hstack : (k'.tasks u).kernelStackBottom = kernelStackMem)
    (ho : Owns k'.heap (u :: kernelStackMem :: (k.blocks img ++ buffers))) :
    Waits k' t (n + 1) := by
  obtain ⟨xs, ys, rfl, rfl⟩ := hw.split h.ring
  obtain ⟨hnew, hc⟩ := h.created hcr hstack ho
  have hne : t ≠ u := by
    rintro rfl
    exact hnew (h.mem_iff.2 (Or.inr (by simp)))
  refine ⟨?_, u :: xs, ys, hc.ring, List.length_cons⟩
  rw [hcr.old hne]
  exact hw.ready

end Kernel

/-! ### Runs -/

/-- The step calls `schedule`. -/
def Op.schedules : Op → Bool
  | .exitTask | .taskSleep _ | .timerHandler | .schedule => true
  | _ => false

namespace System

variable {img : Image} {s s' : System} {t n : ℕ} {op : Op}

open Kernel (Waits WellFormed)

theorem waits_created {k : Kernel} {buffers l : List ℕ} {u kstack : ℕ} (hw : Waits s.kernel t n)
    (hc : s.kernel.Consistent img buffers l) (hu : u ≠ 0) (hcr : s.kernel.Created k u)
    (hstack : (k.tasks u).kernelStackBottom = kstack)
    (ho : Owns k.heap (u :: kstack :: (s.kernel.blocks img ++ buffers))) :
    ∃ m, Waits (s.withTask (u, k)).kernel t m ∧
      m + s.created ≤ n + (s.withTask (u, k)).created := by
  refine ⟨n + 1, hw.created hc hcr hstack ho, ?_⟩
  have hadd : (s.withTask (u, k)).created = s.created + 1 := if_neg hu
  omega

/-- The last thing that a step does is to call `schedule`. -/
theorem waits_schedule {k k' : Kernel} {l : List ℕ} (hw : Waits k t n) (hwf : WellFormed k l)
    (hk : k.schedule = some k') :
    (s.withKernel k').kernel.currentTask = t ∨ ∃ m, Waits (s.withKernel k').kernel t m ∧
      m + true.toNat + s.created ≤ n + (s.withKernel k').created := by
  obtain h | ⟨m, hm, h⟩ := hw.schedule hwf hk
  · exact Or.inl h
  · exact Or.inr ⟨m, h, Nat.add_le_add_right hm s.created⟩

/-- A step picks the task, kills it, or leaves it waiting for what there is before it. -/
theorem waits_step (hi : s.Inv img) (hids : s.created < 2 ^ 32) (h : s.step img op = some s')
    (hw : Waits s.kernel t n) (ht : t ∈ s'.kernel.alive) (hcur : s.kernel.currentTask ≠ t) :
    s'.kernel.currentTask = t ∨ ∃ m, Waits s'.kernel t m ∧
      m + op.schedules.toNat + s.created ≤ n + s'.created := by
  obtain ⟨l, hc⟩ := hi.list
  have hwf : WellFormed s.kernel l := hc.wellFormed (hi.pids.nodup hids)
  have hheld := hc.currentHeld
  cases op with
  | createTask =>
      obtain ⟨⟨u, k⟩, hk, rfl⟩ := Option.map_eq_some_iff.1 h
      obtain ⟨_, ⟨rfl, hs, ho⟩ | ⟨hu, hcr, kstack, hh, ho⟩⟩ :=
        Kernel.createTask_cases hk hheld hc.owns
      · exact Or.inr ⟨n, hw.sameTasks hs, le_rfl⟩
      · exact Or.inr (waits_created hw hc hu hcr hh.kernelStack ho.left)
  | createUserTask =>
      obtain ⟨⟨u, k⟩, hk, rfl⟩ := Option.map_eq_some_iff.1 h
      obtain ⟨rfl, hs, ho, _⟩ | ⟨hu, hcr, kstack, stack, cr3, hh, ho, _⟩ :=
        Kernel.createUserTask_cases hk hheld hc.owns
      · exact Or.inr ⟨n, hw.sameTasks hs, le_rfl⟩
      · exact Or.inr (waits_created hw hc hu hcr hh.kernelStack ho.left)
  | createUserProcess file =>
      obtain ⟨⟨u, k⟩, hk, rfl⟩ := Option.map_eq_some_iff.1 h
      obtain ⟨rfl, hs, ho, _⟩ | ⟨hu, hcr, kstack, stack, cr3, size, m, hh, ho, _⟩ :=
        Kernel.createUserProcess_cases hk hheld hc.owns
      · exact Or.inr ⟨n, hw.sameTasks hs, le_rfl⟩
      · exact Or.inr (waits_created hw hc hu hcr hh.kernelStack ho.left)
  | killTask pid =>
      cases h
      obtain ⟨m, hm, hw'⟩ := hw.killTask hc ht
      exact Or.inr ⟨m, hw', Nat.add_le_add_right hm _⟩
  | exitTask =>
      obtain ⟨k, hk, rfl⟩ := Option.map_eq_some_iff.1 h
      exact waits_schedule (hw.stop hcur _ _) (hwf.stop _ _) hk
  | taskSleep ms =>
      obtain ⟨k, hk, rfl⟩ := Option.map_eq_some_iff.1 h
      rw [Kernel.taskSleep_eq hc] at hk
      exact waits_schedule (hw.stop hcur _ _) (hwf.stop _ _) hk
  | taskTimerTick =>
      cases h
      exact Or.inr ⟨n, hw.taskTimerTick hc, le_rfl⟩
  | timerHandler =>
      obtain ⟨k, hk, rfl⟩ := Option.map_eq_some_iff.1 h
      have hc' := hc.tick.1
      have hw' : Waits { s.kernel with timerTicks := s.kernel.timerTicks + 1 } t n :=
        hw.congr rfl (fun _ => rfl) hw.ready
      have hwf' : WellFormed { s.kernel with timerTicks := s.kernel.timerTicks + 1 } l :=
        hwf.congr rfl rfl fun _ => ⟨rfl, rfl⟩
      exact waits_schedule (hw'.taskTimerTick hc') (hwf'.taskTimerTick hc') hk
  | schedule =>
      obtain ⟨k, hk, rfl⟩ := Option.map_eq_some_iff.1 h
      exact waits_schedule hw hwf hk
  | pageFault addr =>
      obtain ⟨m, _, rfl⟩ := Option.map_eq_some_iff.1 h
      exact Or.inr ⟨n, hw.sameTasks ⟨rfl, rfl, rfl, rfl, rfl, rfl⟩, le_rfl⟩
  | kmalloc bytes =>
      obtain ⟨⟨p, k⟩, hk, rfl⟩ := Option.map_eq_some_iff.1 h
      exact Or.inr ⟨n, hw.sameTasks (hc.kmalloc hk).1, le_rfl⟩
  | kfree i =>
      simp only [step] at h
      cases hi : s.buffers[i]? with
      | none =>
          rw [hi] at h
          cases h
          exact Or.inr ⟨n, hw, le_rfl⟩
      | some p =>
          rw [hi] at h
          cases h
          exact Or.inr ⟨n, hw.sameTasks ⟨rfl, rfl, rfl, rfl, rfl, rfl⟩, le_rfl⟩

theorem created_le (hi : s.Inv img) (h : s.step img op = some s') : s.created ≤ s'.created := by
  obtain ⟨l, hc⟩ := hi.list
  obtain ⟨_, ⟨hn, -, -⟩ | ⟨_, -, hn, -, -⟩⟩ := step_cases h hc
  · exact hn.ge
  · rw [hn]
    exact Nat.le_succ _

theorem run_cons_some {ops : List Op} (h : s.run img (op :: ops) = some s') :
    ∃ s₁, s.step img op = some s₁ ∧ s₁.run img ops = some s' := by
  have hb : (s.step img op).bind (fun s₁ => s₁.run img ops) = some s' := h
  exact Option.bind_eq_some_iff.1 hb

theorem created_le_run {ops : List Op} (hi : s.Inv img) (h : s.run img ops = some s') :
    s.created ≤ s'.created := by
  induction ops generalizing s with
  | nil =>
      cases h
      exact le_rfl
  | cons op ops ih =>
      obtain ⟨s₁, h₁, h₂⟩ := run_cons_some h
      exact (created_le hi h₁).trans (ih (hi.step h₁) h₂)

/-- A task that is neither picked nor killed in a run comes nearer with every call of
`schedule`. -/
theorem waits_run {ops : List Op} (hi : s.Inv img) (h : s.run img ops = some s')
    (hids : s'.created < 2 ^ 32) (hw : Waits s.kernel t n)
    (hnever : ∀ ops' s'', ops' <+: ops → s.run img ops' = some s'' →
      t ∈ s''.kernel.alive ∧ s''.kernel.currentTask ≠ t) :
    ∃ m, Waits s'.kernel t m ∧ m + ops.countP Op.schedules + s.created ≤ n + s'.created := by
  induction ops generalizing s n with
  | nil =>
      cases h
      exact ⟨n, hw, le_rfl⟩
  | cons op ops ih =>
      obtain ⟨s₁, h₁, h₂⟩ := run_cons_some h
      have hle := created_le_run (hi.step h₁) h₂
      have hle₁ := created_le hi h₁
      have hrun : ∀ ops', s.run img (op :: ops') = s₁.run img ops' := fun ops' => run_cons h₁
      obtain ⟨halive, hcur⟩ := hnever [op] s₁ ⟨ops, rfl⟩ (hrun [])
      obtain hpicked | ⟨m, hm, hbound⟩ := waits_step hi (by omega) h₁ hw halive
        (hnever [] s ⟨op :: ops, rfl⟩ rfl).2
      · exact absurd hpicked hcur
      · obtain ⟨m', hm', hbound'⟩ := ih (hi.step h₁) h₂ hm fun ops' s'' hp hs =>
          hnever (op :: ops') s'' (List.cons_prefix_cons.2 ⟨rfl, hp⟩) ((hrun ops').trans hs)
        refine ⟨m', hm', ?_⟩
        rw [List.countP_cons]
        have hone : op.schedules.toNat = if op.schedules = true then 1 else 0 := by
          cases op.schedules <;> rfl
        omega

end System

/-- **No task waits forever.**  A task that is ready is picked, unless it is killed, before
`schedule` has been called once for each other task that is there or comes in the meantime. -/
theorem run_bounded_waiting {img : Image} {k₀ k : Kernel} {magic : UInt32}
    {mbi : Pmm.MultibootInfo} (hboot : k₀.boot img magic mbi = some k) {ops₀ ops : List Op}
    {s s' : System} (hrun : (System.start k).run img ops₀ = some s) {t : ℕ}
    (ht : t ∈ s.kernel.alive) (hready : (s.kernel.tasks t).state = .ready)
    (h : s.run img ops = some s') (hids : s'.created < 2 ^ 32)
    (hcalls : s.kernel.alive.length - 1 + (s'.created - s.created) ≤ ops.countP Op.schedules) :
    ∃ ops' s'', ops' <+: ops ∧ s.run img ops' = some s'' ∧
      (s''.kernel.currentTask = t ∨ t ∉ s''.kernel.alive) := by
  obtain ⟨_, _, _, _, _, _, hbooted⟩ := Kernel.boot_cases hboot
  have hi : s.Inv img :=
    System.run_induction (fun _ _ _ hinv hs => hinv.step hs) hbooted.inv hrun
  by_contra hno
  push Not at hno
  have hnever : ∀ ops' s'', ops' <+: ops → s.run img ops' = some s'' →
      t ∈ s''.kernel.alive ∧ s''.kernel.currentTask ≠ t :=
    fun ops' s'' hp hs => (hno ops' s'' hp hs).symm
  obtain ⟨l, hc⟩ := hi.list
  obtain ⟨n, hn, hw⟩ := Kernel.exists_waits hc ht (hnever [] s List.nil_prefix rfl).2 hready
  obtain ⟨m, -, hm⟩ := System.waits_run hi h hids hw hnever
  have hle := System.created_le_run hi h
  omega

/-- A new task, and the next tick. -/
theorem run_bounded_waiting_one : ∃ k s s' t,
    blankKernel.boot smallImage Pmm.MULTIBOOT_BOOTLOADER_MAGIC smallMap = some k ∧
    (System.start k).run smallImage [.createTask] = some s ∧
    s.run smallImage [.timerHandler] = some s' ∧
    ∃ ops' s'', ops' <+: [Op.timerHandler] ∧ s.run smallImage ops' = some s'' ∧
      (s''.kernel.currentTask = t ∨ t ∉ s''.kernel.alive) := by
  obtain ⟨k, s, t, h⟩ := exists_oneTask
  obtain ⟨l, hc⟩ := h.inv.list
  have htick := hc.tick
  have hdir := (htick.2.trans (Kernel.taskTimerTick_persists htick.1)).dirs h.directory
  obtain ⟨k₂, hk₂⟩ := Kernel.exists_schedule htick.1.taskTimerTick hdir
  have h2 : s.step smallImage .timerHandler = some (s.withKernel k₂) := by
    simp only [System.step, System.withKernel, Kernel.timerHandler, hk₂, Option.map_some]
  have hrun₁ : (System.start k).run smallImage [.createTask] = some s := by
    rw [System.run_cons h.step, System.run_nil]
  have hrun₂ : s.run smallImage [.timerHandler] = some (s.withKernel k₂) := by
    rw [System.run_cons h2, System.run_nil]
  have hmem : t ∈ s.kernel.alive := by
    rw [h.alive]
    exact List.mem_cons_self ..
  have hids : (s.withKernel k₂).created < 2 ^ 32 := by
    show s.created < 2 ^ 32
    rw [h.created]
    decide
  refine ⟨k, s, _, t, h.boot, hrun₁, hrun₂, ?_⟩
  refine run_bounded_waiting h.boot hrun₁ hmem h.ready hrun₂ hids ?_
  show s.kernel.alive.length - 1 + (s.created - s.created) ≤ 1
  rw [h.alive, Nat.sub_self]
  exact le_rfl

end NosmeriOs.Tasks
