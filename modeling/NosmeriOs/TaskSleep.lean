import NosmeriOs.TaskContext

/-! # When a sleeping task wakes

`task_sleep` turns milliseconds into ticks and adds them to the clock, on 32 bits each;
`task_timer_tick` compares the sum with the clock.

* `wakeDelay`: the number of ticks after which a sleeper wakes up (`wakeDelay_spec`), and
  `exactDelay` the number that the call asks for.
* `SleepFits`: the two are the same (`wakeDelay_eq_iff`).
* `TicksRun`: runs that count the ticks, in which a sleeper calls nothing but `schedule`.
* `run_sleep`: in each of them the task is made ready by the tick `wakeDelay`, and by none
  before. -/

namespace NosmeriOs.Tasks

open Vmm Vfs Heap Rings

/-! ### Arithmetic -/

namespace Kernel

theorem toNat_sleepTicks (ms : UInt32) : (sleepTicks ms).toNat =
    if 0 < ms.toNat ∧ ms.toNat * 100 % 2 ^ 32 / 1000 = 0 then 1
    else ms.toNat * 100 % 2 ^ 32 / 1000 := by
  have hticks : (ms * TIMER_FREQ / 1000).toNat = ms.toNat * 100 % 2 ^ 32 / 1000 := by
    rw [UInt32.toNat_div, UInt32.toNat_mul]
    rfl
  have hpos : 0 < ms ↔ 0 < ms.toNat := UInt32.lt_iff_toNat_lt
  have hzero : ms * TIMER_FREQ / 1000 = 0 ↔ ms.toNat * 100 % 2 ^ 32 / 1000 = 0 := by
    rw [← hticks]
    exact UInt32.toNat_inj.symm
  unfold sleepTicks
  simp only [hpos, hzero]
  split_ifs
  · rfl
  · exact hticks

/-- The ticks until `task_timer_tick` finds the wake tick reached, from the tick of the call on. -/
def wakeDelay (now ms : UInt32) : ℕ :=
  let ticks := (sleepTicks ms).toNat
  if ticks = 0 then if now.toNat + 1 = 2 ^ 32 then 2 ^ 32 else 1
  else if now.toNat + ticks < 2 ^ 32 ∨ now.toNat + 1 = 2 ^ 32 then ticks
  else 1

/-- The ticks in `ms` milliseconds, at least the next one. -/
def exactDelay (ms : UInt32) : ℕ := max 1 (ms.toNat * TIMER_FREQ.toNat / 1000)

/-- Neither the product nor the wake tick run over; on the last tick of the clock, where all later
ones have run over too, the wake tick may. -/
def SleepFits (now ms : UInt32) : Prop :=
  ms.toNat * TIMER_FREQ.toNat < 2 ^ 32 ∧
    (now.toNat + exactDelay ms < 2 ^ 32 ∨ 0 < ms.toNat ∧ now.toNat + 1 = 2 ^ 32)

theorem wakeDelay_eq_iff (now ms : UInt32) :
    wakeDelay now ms = exactDelay ms ↔ SleepFits now ms := by
  have hfreq : TIMER_FREQ.toNat = 100 := rfl
  have hnow := now.toNat_lt
  have hms := ms.toNat_lt
  have hticks := toNat_sleepTicks ms
  unfold wakeDelay SleepFits exactDelay
  rw [hfreq]
  dsimp only
  generalize (sleepTicks ms).toNat = ticks at *
  have hpos : 0 < ms.toNat ↔ 0 < ms.toNat * 100 := by omega
  simp only [hpos] at hticks ⊢
  clear hpos
  generalize ms.toNat * 100 = p at *
  by_cases hp : p < 2 ^ 32
  · rw [Nat.mod_eq_of_lt hp] at hticks
    have hzero : p = 0 → p / 1000 = 0 := fun h => by rw [h]
    generalize p / 1000 = d at *
    split_ifs at hticks ⊢ <;> omega
  · -- the product has lost 2^32 at least, hence the delay more than 4 million ticks
    have hlost : p % 2 ^ 32 / 1000 + 4294967 ≤ p / 1000 := by
      have hmod : p % 2 ^ 32 + 4294967 * 1000 ≤ p := by omega
      have hdiv := Nat.div_le_div_right (c := 1000) hmod
      rwa [Nat.add_mul_div_right _ _ (by omega)] at hdiv
    generalize p % 2 ^ 32 / 1000 = r at *
    generalize p / 1000 = d at *
    split_ifs at hticks ⊢ <;> omega

theorem toNat_add_ofNat (now : UInt32) (n : ℕ) :
    (now + UInt32.ofNat n).toNat = (now.toNat + n) % 2 ^ 32 := by
  rw [UInt32.toNat_add, UInt32.toNat_ofNat']
  omega

/-- The clock has reached the wake tick after `wakeDelay` ticks, and not before. -/
theorem wakeDelay_spec (now ms : UInt32) :
    0 < wakeDelay now ms ∧
      (∀ n, 0 < n → n < wakeDelay now ms → ¬ now + sleepTicks ms ≤ now + UInt32.ofNat n) ∧
      now + sleepTicks ms ≤ now + UInt32.ofNat (wakeDelay now ms) := by
  have hnow := now.toNat_lt
  have hlt := (sleepTicks ms).toNat_lt
  have hle : ∀ n, now + sleepTicks ms ≤ now + UInt32.ofNat n ↔
      (now.toNat + (sleepTicks ms).toNat) % 2 ^ 32 ≤ (now.toNat + n) % 2 ^ 32 := by
    intro n
    rw [UInt32.le_iff_toNat_le, toNat_add_ofNat, UInt32.toNat_add]
  simp only [hle]
  unfold wakeDelay
  dsimp only
  generalize (sleepTicks ms).toNat = ticks at *
  generalize now.toNat = a at *
  split_ifs with h0 hlast hfit
  · exact ⟨by omega, fun n h1 h2 => by omega, by omega⟩
  · exact ⟨by omega, fun n h1 h2 => by omega, by omega⟩
  · exact ⟨by omega, fun n h1 h2 => by omega, by omega⟩
  · exact ⟨by omega, fun n h1 h2 => by omega, by omega⟩

/-- `timer_handler` up to its call of `schedule`. -/
def ticked (k : Kernel) : Kernel := ({ k with timerTicks := k.timerTicks + 1 }).taskTimerTick

/-- `schedule` does not remove the task that calls it. -/
theorem schedule_current_mem {img : Image} {k k' : Kernel} {buffers l : List ℕ}
    (hk : k.schedule = some k') (hc : Consistent img k buffers l) : k.currentTask ∈ k'.alive := by
  obtain ⟨k₁, l₁, _, hc₁, hcur, rfl | ⟨next, _, _, hs⟩⟩ := schedule_cases hk hc
  · rw [← hcur]
    exact hc₁.current_mem
  · rw [switchTo_eq hs, ← hcur]
    exact hc₁.current_mem

end Kernel

/-! ### Ticks -/

namespace System

variable {img : Image} {s s₁ s' : System} {t n : ℕ}

/-- Runs with `n` ticks in which `t` is never removed and, while it sleeps, calls nothing but
`schedule`: it is in the loop of `task_sleep`. -/
inductive TicksRun (img : Image) (t : ℕ) (s : System) : ℕ → System → Prop
  | refl : t ∈ s.kernel.alive → TicksRun img t s 0 s
  | other {n : ℕ} {s₁ s₂ : System} {op : Op} : TicksRun img t s n s₁ →
      op ≠ .taskTimerTick → op ≠ .timerHandler →
      (s₁.kernel.currentTask = t → (s₁.kernel.tasks t).state = .sleeping → IsInterrupt op) →
      s₁.step img op = some s₂ → t ∈ s₂.kernel.alive → TicksRun img t s n s₂
  | tick {n : ℕ} {s₁ s₂ : System} : TicksRun img t s n s₁ →
      s₁.step img .timerHandler = some s₂ → t ∈ s₂.kernel.alive → TicksRun img t s (n + 1) s₂

/-- In every run `t` sleeps until the tick `n`, and is made ready by it. -/
structure WakesAt (img : Image) (s : System) (t n : ℕ) : Prop where
  asleep : ∀ m s', TicksRun img t s m s' → m < n → (s'.kernel.tasks t).state = .sleeping
  woken : ∀ m s', TicksRun img t s m s' → m + 1 = n → (s'.kernel.ticked.tasks t).state = .ready

/-- `t` sleeps after `n` ticks. -/
structure Asleep (img : Image) (s : System) (t n : ℕ) (s' : System) : Prop where
  inv : s'.Inv img
  alive : t ∈ s'.kernel.alive
  state : (s'.kernel.tasks t).state = .sleeping
  wakeTick : (s'.kernel.tasks t).wakeTick = (s.kernel.tasks t).wakeTick
  timerTicks : s'.kernel.timerTicks = s.kernel.timerTicks + UInt32.ofNat n

/-- The task `t` after a tick. -/
theorem tasks_ticked {l : List ℕ} (hc : s.kernel.Consistent img s.buffers l)
    (ht : t ∈ s.kernel.alive) : s.kernel.ticked.tasks t =
      Kernel.woken { s.kernel with timerTicks := s.kernel.timerTicks + 1 } t := by
  unfold Kernel.ticked
  rw [Kernel.taskTimerTick_eq hc.tick.1]
  exact if_pos ht

theorem Asleep.rests (h : Asleep img s t n s₁) (hi : s'.Inv img) (ht : t ∈ s'.kernel.alive)
    (hr : s₁.kernel.Rests t s'.kernel) : Asleep img s t n s' :=
  ⟨hi, ht, hr.state.trans h.state, hr.wakeTick.trans h.wakeTick,
    hr.timerTicks.trans h.timerTicks⟩

/-- A tick before the wake tick. -/
theorem Asleep.tick (h : Asleep img s t n s₁) (hs : s₁.step img .timerHandler = some s')
    (ht : t ∈ s'.kernel.alive)
    (hwait : ¬ (s.kernel.tasks t).wakeTick ≤ s.kernel.timerTicks + UInt32.ofNat (n + 1)) :
    Asleep img s t (n + 1) s' := by
  have hi := h.inv.step hs
  obtain ⟨l, hc⟩ := h.inv.list
  obtain ⟨k, hk, rfl⟩ := Option.map_eq_some_iff.1 hs
  have hc' := hc.tick.1
  have hnow : s₁.kernel.timerTicks + 1 = s.kernel.timerTicks + UInt32.ofNat (n + 1) := by
    rw [h.timerTicks, UInt32.ofNat_add, UInt32.add_assoc]
    rfl
  have hwoken : Kernel.woken { s₁.kernel with timerTicks := s₁.kernel.timerTicks + 1 } t =
      s₁.kernel.tasks t := by
    unfold Kernel.woken
    rw [if_neg]
    rintro ⟨-, hle⟩
    apply hwait
    rw [← hnow, ← h.wakeTick]
    exact hle
  have htick := Kernel.taskTimerTick_rests hc' hwoken
  have hsched := Kernel.schedule_rests hk hc'.taskTimerTick
    (htick.atRest (Or.inr h.state))
  have hr := htick.trans hsched
  exact ⟨hi, ht, hr.state.trans h.state, hr.wakeTick.trans h.wakeTick,
    hr.timerTicks.trans hnow⟩

/-- Until its wake tick the task sleeps. -/
theorem TicksRun.asleep {e : ℕ} (h0 : Asleep img s t 0 s)
    (hwait : ∀ m, 0 < m → m < e →
      ¬ (s.kernel.tasks t).wakeTick ≤ s.kernel.timerTicks + UInt32.ofNat m)
    (hr : TicksRun img t s n s') (hn : n < e) : Asleep img s t n s' := by
  induction hr with
  | refl _ => exact h0
  | other _ h1 h2 hcall hs ht ih =>
      have h := ih hn
      have hrest := rests_step h.inv hs (fun hcur => hcall hcur h.state) h.alive
        (Or.inr h.state) h1 h2
      exact h.rests (h.inv.step hs) ht hrest
  | tick _ hs ht ih => exact (ih (by omega)).tick hs ht (hwait _ (by omega) hn)

/-- The first tick that reaches the wake tick wakes the task. -/
theorem wakesAt_of_asleep {e : ℕ} (h0 : Asleep img s t 0 s)
    (hwait : ∀ m, 0 < m → m < e →
      ¬ (s.kernel.tasks t).wakeTick ≤ s.kernel.timerTicks + UInt32.ofNat m)
    (hdone : (s.kernel.tasks t).wakeTick ≤ s.kernel.timerTicks + UInt32.ofNat e) :
    WakesAt img s t e := by
  refine ⟨fun m s' hr hm => (hr.asleep h0 hwait hm).state, fun m s' hr hm => ?_⟩
  have h := hr.asleep h0 hwait (by omega)
  obtain ⟨l, hc⟩ := h.inv.list
  have hnow : s'.kernel.timerTicks + 1 = s.kernel.timerTicks + UInt32.ofNat e := by
    rw [h.timerTicks, ← hm, UInt32.ofNat_add, UInt32.add_assoc]
    rfl
  rw [tasks_ticked hc h.alive]
  unfold Kernel.woken
  rw [if_pos]
  refine ⟨h.state, ?_⟩
  change (s'.kernel.tasks t).wakeTick ≤ s'.kernel.timerTicks + 1
  rw [hnow, h.wakeTick]
  exact hdone

/-- The task that calls `task_sleep` sleeps. -/
theorem asleep_taskSleep {ms : UInt32} (hi : s.Inv img)
    (hs : s.step img (.taskSleep ms) = some s') :
    Asleep img s' s.kernel.currentTask 0 s' ∧
      (s'.kernel.tasks s.kernel.currentTask).wakeTick =
        s.kernel.timerTicks + Kernel.sleepTicks ms ∧
      s'.kernel.timerTicks = s.kernel.timerTicks := by
  have hi' := hi.step hs
  obtain ⟨l, hc⟩ := hi.list
  obtain ⟨k, hk, rfl⟩ := Option.map_eq_some_iff.1 hs
  rw [Kernel.taskSleep_eq hc] at hk
  have hstop := hc.stop .sleeping (s.kernel.timerTicks + Kernel.sleepTicks ms)
  have htask : (s.kernel.stop .sleeping (s.kernel.timerTicks + Kernel.sleepTicks ms)).tasks
      s.kernel.currentTask = { s.kernel.current with
        wakeTick := s.kernel.timerTicks + Kernel.sleepTicks ms, state := .sleeping } := by
    rw [Kernel.tasks_stop, if_pos rfl]
  have hrest := @Kernel.schedule_rests _ _ _ _ _ s.kernel.currentTask hk hstop
    (Or.inr (by rw [htask]))
  have hmem := Kernel.schedule_current_mem hk hstop
  refine ⟨⟨hi', ?_, ?_, rfl, ?_⟩, ?_, hrest.timerTicks⟩
  · exact hmem
  · exact hrest.state.trans (by rw [htask])
  · simp
  · exact hrest.wakeTick.trans (by rw [htask])

/-- In every run the sleeper wakes after `wakeDelay` ticks. -/
theorem wakesAt_taskSleep {ms : UInt32} (hi : s.Inv img)
    (hs : s.step img (.taskSleep ms) = some s') :
    WakesAt img s' s.kernel.currentTask (Kernel.wakeDelay s.kernel.timerTicks ms) := by
  obtain ⟨hasleep, hwake, hticks⟩ := asleep_taskSleep hi hs
  obtain ⟨-, hwait, hdone⟩ := Kernel.wakeDelay_spec s.kernel.timerTicks ms
  rw [← hwake, ← hticks] at hdone
  apply wakesAt_of_asleep hasleep
  · intro m h0 hm
    rw [hwake, hticks]
    exact hwait m h0 hm
  · rw [hticks] at hdone ⊢
    exact hdone

end System

variable {img : Image} {k₀ k : Kernel} {magic : UInt32} {mbi : Pmm.MultibootInfo}

/-- **A sleeping task wakes at the tick it asked for when the 32-bit products and sums fit**, and
in all other cases at another tick; whatever runs between the ticks.  A task that does not sleep
is left alone by `task_timer_tick`. -/
theorem run_sleep (hboot : k₀.boot img magic mbi = some k) {ops : List Op} {s : System}
    (hrun : (System.start k).run img ops = some s) :
    (∀ t, (s.kernel.tasks t).state ≠ .sleeping →
      s.kernel.taskTimerTick.tasks t = s.kernel.tasks t) ∧
    ∀ ms s', s.step img (.taskSleep ms) = some s' →
      (Kernel.SleepFits s.kernel.timerTicks ms →
        System.WakesAt img s' s.kernel.currentTask (Kernel.exactDelay ms)) ∧
      (¬ Kernel.SleepFits s.kernel.timerTicks ms →
        ∃ n, n ≠ Kernel.exactDelay ms ∧ System.WakesAt img s' s.kernel.currentTask n) := by
  obtain ⟨_, _, _, _, _, _, hbooted⟩ := Kernel.boot_cases hboot
  have hi : s.Inv img := System.run_induction (fun _ _ _ hinv hs => hinv.step hs) hbooted.inv hrun
  obtain ⟨l, hc⟩ := hi.list
  refine ⟨fun t ht => ?_, fun ms s' hs => ?_⟩
  · rw [Kernel.taskTimerTick_eq hc]
    unfold Kernel.woken
    simp [ht]
  · have hwakes := System.wakesAt_taskSleep hi hs
    have hiff := Kernel.wakeDelay_eq_iff s.kernel.timerTicks ms
    exact ⟨fun hfits => hiff.2 hfits ▸ hwakes, fun hnot => ⟨_, mt hiff.1 hnot, hwakes⟩⟩

theorem Kernel.boot_timerTicks (hboot : k₀.boot img magic mbi = some k) : k.timerTicks = 0 := by
  obtain ⟨k₁, h1, h⟩ := Option.bind_eq_some_iff.1 hboot
  obtain ⟨m₂, hm, h1⟩ := Option.bind_eq_some_iff.1 h1
  cases h1
  obtain ⟨k₂, h2, h⟩ := Option.bind_eq_some_iff.1 h
  obtain ⟨heap, machine, files, fdTable, rfl, _⟩ := Kernel.initTaskFds_cases h2 (owns_initHeap _)
  cases h
  rfl

/-- A task that is alone keeps running. -/
theorem Kernel.schedule_alone (h : k.current.next = k.currentTask) : k.schedule = some k :=
  if_pos (Or.inr h)

theorem System.timerHandler_alone {s : System} {l : List ℕ}
    (hc : s.kernel.Consistent img s.buffers l) (h : s.kernel.current.next = s.kernel.currentTask) :
    s.step img .timerHandler = some (s.withKernel s.kernel.ticked) ∧
      s.kernel.ticked.alive = s.kernel.alive := by
  have hticked := Kernel.taskTimerTick_eq hc.tick.1
  have hsched : s.kernel.ticked.schedule = some s.kernel.ticked := by
    apply Kernel.schedule_alone
    unfold Kernel.current Kernel.ticked
    rw [hticked]
    dsimp only
    rw [if_pos hc.current_mem, Kernel.next_woken]
    exact h
  refine ⟨congrArg (Option.map _) hsched, ?_⟩
  unfold Kernel.ticked
  rw [hticked]

theorem Kernel.Booted.stop_next (h : k.Booted img) (st : TaskState) (wakeTick : UInt32) :
    (k.stop st wakeTick).current.next = (k.stop st wakeTick).currentTask := by
  have hself := Kernel.tasks_stop k st wakeTick k.currentTask
  rw [if_pos rfl] at hself
  exact (congrArg Task.next hself).trans (h.next.trans h.current.symm)

/-- The kernel task sleeps with no other task to switch to. -/
theorem Kernel.Booted.taskSleep (h : k.Booted img) (ms : UInt32) :
    (System.start k).step img (.taskSleep ms) = some ((System.start k).withKernel
      (k.stop .sleeping (k.timerTicks + Kernel.sleepTicks ms))) := by
  obtain ⟨l, hc⟩ := h.inv.list
  have hsched := Kernel.schedule_alone
    (h.stop_next .sleeping (k.timerTicks + Kernel.sleepTicks ms))
  exact congrArg (Option.map _) ((Kernel.taskSleep_eq hc ms).trans hsched)

/-- The kernel task sleeps for ten milliseconds. -/
theorem run_sleep_once : ∃ k s',
    blankKernel.boot smallImage Pmm.MULTIBOOT_BOOTLOADER_MAGIC smallMap = some k ∧
    (System.start k).step smallImage (.taskSleep 10) = some s' ∧
    System.WakesAt smallImage s' k.currentTask 1 := by
  obtain ⟨k, hboot, -⟩ := blankKernel_boot
  obtain ⟨_, _, _, _, _, _, hbooted⟩ := Kernel.boot_cases hboot
  have hs := hbooted.taskSleep 10
  have hrun : (System.start k).run smallImage [] = some (System.start k) := System.run_nil ..
  have hfits : Kernel.SleepFits k.timerTicks 10 := by
    rw [Kernel.boot_timerTicks hboot]
    unfold Kernel.SleepFits
    decide
  exact ⟨k, _, hboot, hs, ((run_sleep hboot hrun).2 10 _ hs).1 hfits⟩

/-- From 42949673 milliseconds on the product runs over: the task wakes after one tick. -/
theorem sleep_wraps : ∃ k s',
    blankKernel.boot smallImage Pmm.MULTIBOOT_BOOTLOADER_MAGIC smallMap = some k ∧
    (System.start k).step smallImage (.taskSleep 42949673) = some s' ∧
    ¬ System.WakesAt smallImage s' k.currentTask (Kernel.exactDelay 42949673) := by
  obtain ⟨k, hboot, -⟩ := blankKernel_boot
  obtain ⟨_, _, _, _, _, _, hbooted⟩ := Kernel.boot_cases hboot
  have hs := hbooted.taskSleep 42949673
  have hi : (System.start k).Inv smallImage := hbooted.inv
  obtain ⟨l, hc⟩ := (hi.step hs).list
  have hasleep := (System.asleep_taskSleep hi hs).1
  have hwakes := System.wakesAt_taskSleep hi hs
  have hdelay : Kernel.wakeDelay k.timerTicks 42949673 = 1 := by
    rw [Kernel.boot_timerTicks hboot]
    decide
  have hready := hwakes.woken 0 _ (.refl hasleep.alive) hdelay.symm
  -- the tick does not switch to another task
  obtain ⟨htick, halive⟩ := System.timerHandler_alone hc (hbooted.stop_next _ _)
  have hmem := hasleep.alive
  rw [← halive] at hmem
  refine ⟨k, _, hboot, hs, fun hexact => ?_⟩
  have hsleeping := hexact.asleep 1 _ (.tick (.refl hasleep.alive) htick hmem) (by decide)
  have hstate := hready.symm.trans hsleeping
  cases hstate

end NosmeriOs.Tasks
