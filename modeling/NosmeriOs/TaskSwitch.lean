import NosmeriOs.TaskStacks

/-! # Switches between the spaces of the tasks

`schedule` loads the directory of the next task before `switch_task` saves the registers of the
one before on its kernel stack, so both stacks have to be mapped there.

* `Stacked`: what holds of the heap and of the stacks in between; `Leaves` and `Op.Allocates` are
  the steps that keep them and those that may add to them.
* `run_stacks_mapped_iff`: at each switch the stacks are mapped if the next directory has the
  tables of the stack before, as long as the heap grows only where its tables are at hand.
* `run_stacks_mapped`: so they are while one page table is enough for the heap. -/

namespace NosmeriOs.Tasks

open Vmm Vfs Heap Ledgers

namespace Kernel

variable {img : Image} {k k' k'' : Kernel} {buffers l : List ℕ} {ρ : Ledger ℕ Use}

/-- The heap is mapped in the directories of the kernel and of the tasks as far as they have its
tables, and each stack is where its task can reach it. -/
structure Stacked (img : Image) (k : Kernel) : Prop where
  shares : Shares img k.machine {d | k.HasDirectory img d} k.heap.heapCurrentEnd
  stack : ∀ t ∈ k.alive, t ≠ img.kernelTask → StackOk k t

/-! ### Steps that create nothing -/

/-- The machine has only loaded another directory or freed pages; stacks are still there. -/
structure Leaves (img : Image) (k k' : Kernel) : Prop where
  persists : Persists k k'
  stack : ∀ t, (k'.tasks t).kernelStackBottom = (k.tasks t).kernelStackBottom
  frames : k'.machine.frames = k.machine.frames
  heapEnd : k'.heap.heapCurrentEnd = k.heap.heapCurrentEnd
  block : ∀ t ∈ k'.alive, t ≠ img.kernelTask → ∀ n, HasBlock k.heap
    (k.tasks t).kernelStackBottom n → HasBlock k'.heap (k.tasks t).kernelStackBottom n

theorem Leaves.refl (k : Kernel) : Leaves img k k :=
  ⟨.refl k, fun _ => rfl, rfl, rfl, fun _ _ _ _ => id⟩

theorem Leaves.trans (h : Leaves img k k') (h' : Leaves img k' k'') : Leaves img k k'' := by
  refine ⟨h.persists.trans h'.persists, fun t => (h'.stack t).trans (h.stack t),
    h'.frames.trans h.frames, h'.heapEnd.trans h.heapEnd, fun t ht hne n hb => ?_⟩
  have hb' := h'.block t ht hne n
  rw [h.stack t] at hb'
  exact hb' (h.block t (h'.persists.alive.subset ht) hne n hb)

/-- The heap is as it was. -/
theorem Leaves.of_heap (hp : Persists k k')
    (hstack : ∀ t, (k'.tasks t).kernelStackBottom = (k.tasks t).kernelStackBottom)
    (hframes : k'.machine.frames = k.machine.frames) (hheap : k'.heap = k.heap) :
    Leaves img k k' := by
  refine ⟨hp, hstack, hframes, by rw [hheap], fun t _ _ n hb => ?_⟩
  rw [hheap]
  exact hb

/-- What two tasks hold is different. -/
theorem Consistent.disjoint (hc : Consistent img k buffers l) {t x : ℕ} (ht : t ∈ k.alive)
    (hx : x ∈ k.alive) (hxt : x ≠ t) (hkt : t ≠ img.kernelTask) (hkx : x ≠ img.kernelTask) :
    (k.tasks x).kernelStackBottom ≠ (k.tasks t).kernelStackBottom ∧
      (k.tasks x).kernelStackBottom ≠ t ∧ t ≠ (k.tasks t).kernelStackBottom := by
  have hx' : x ∈ k.alive.erase t := (List.mem_erase_of_ne hxt).2 hx
  have hperm : k.alive.Perm (t :: x :: (k.alive.erase t).erase x) :=
    (List.perm_cons_erase ht).trans ((List.perm_cons_erase hx').cons t)
  have hn := (hc.owns.left.perm (blocksOf_perm hperm)).nodup
  rw [blocksOf_cons hkt, blocksOf_cons hkx] at hn
  simp only [List.nodup_cons, List.mem_cons, not_or] at hn
  obtain ⟨⟨h1, h2, h3, -⟩, ⟨h4, h5, -⟩, -⟩ := hn
  exact ⟨Ne.symm h5, Ne.symm h3, h1⟩

theorem Leaves.killTask (hc : Consistent img k buffers l) (pid : UInt32) :
    Leaves img k (k.killTask pid).2 := by
  have hp := killTask_persists hc pid
  obtain ⟨xs, t, ys, rfl, h0, hid, -, he⟩ | ⟨-, he⟩ := killTask_cases hc pid
  swap
  · rw [he]
    exact .refl k
  rw [he] at hp ⊢
  have ht : t ∈ k.alive := hc.mem_iff.2 (Or.inr (by simp))
  have hkt : t ≠ img.kernelTask := by
    rintro rfl
    exact h0 (hid.symm.trans hc.kernelId)
  refine ⟨hp, fun x => by rw [remove_fields], ?_, ?_, fun x hx hkx n hb => ?_⟩
  · rw [remove_eq]
    dsimp only
    split_ifs <;> rfl
  · rw [remove_eq]
    dsimp only
    rw [heapCurrentEnd_kfree, heapCurrentEnd_kfree]
  · rw [remove_eq] at hx ⊢
    dsimp only at hx ⊢
    have hxt : x ≠ t := fun e => hc.nodup.not_mem_erase (e ▸ hx)
    obtain ⟨h1, h2, h3⟩ := hc.disjoint ht (List.mem_of_mem_erase hx) hxt hkt hkx
    obtain ⟨hlt, hls⟩ := mem_blocks ht hkt
    have hlive := hc.owns.left.live hls
    exact (hb.kfree hlive h1).kfree ((live_kfree hlive).2 ⟨h3, hc.owns.left.live hlt⟩) h2

theorem Leaves.kills (hc : Consistent img k buffers l) (hk : Kills k k') : Leaves img k k' :=
  hk.induction hc (fun _ _ pid hc h => h.trans (.killTask hc pid)) (.refl k)

theorem Leaves.switchTo {prev next : ℕ} (hk : k.switchTo prev next = some k') :
    Leaves img k k' := by
  have hp := switchTo_persists hk
  rw [switchTo_eq hk] at hp ⊢
  exact .of_heap hp (fun _ => rfl) rfl rfl

theorem Leaves.schedule (hc : Consistent img k buffers l) (hk : k.schedule = some k') :
    Leaves img k k' := by
  obtain ⟨k₁, l₁, hkills, -, -, rfl | ⟨next, -, -, hs⟩⟩ := schedule_cases hk hc
  · exact .kills hc hkills
  · exact Leaves.trans (.kills hc hkills) (.switchTo hs)

theorem Leaves.stop (k : Kernel) (st : TaskState) (wakeTick : UInt32) :
    Leaves img k (k.stop st wakeTick) := by
  refine .of_heap (stop_persists ..) (fun t => ?_) rfl rfl
  rw [tasks_stop]
  split_ifs with ht
  · rw [ht]
    rfl
  · rfl

theorem Leaves.tick (hc : Consistent img k buffers l) : Leaves img k k.taskTimerTick := by
  have hp := taskTimerTick_persists hc
  rw [taskTimerTick_eq hc] at hp ⊢
  refine .of_heap hp (fun t => ?_) rfl rfl
  dsimp only
  unfold woken
  split_ifs <;> rfl

/-- Directories and stacks that remain are as they were. -/
theorem Stacked.leaves (h : Stacked img k) (hl : Leaves img k k') : Stacked img k' := by
  refine ⟨?_, fun t ht hne => ⟨?_, fun a ha => ?_⟩⟩
  · rw [hl.heapEnd]
    refine (h.shares.of_frames hl.frames).mono ?_
    rintro d (rfl | ⟨t, ht, rfl⟩)
    · exact Or.inl rfl
    · exact Or.inr ⟨t, hl.persists.alive.subset ht, by rw [(hl.persists.tasks t).cr3]⟩
  · rw [hl.stack]
    exact hl.block t ht hne _ (h.stack t (hl.persists.alive.subset ht) hne).block
  · unfold OnStack at ha
    rw [hl.stack] at ha
    rw [hl.frames, (hl.persists.tasks t).cr3]
    exact (h.stack t (hl.persists.alive.subset ht) hne).slots a ha

/-! ### Steps that may create a task -/

/-- A stack and its slots stay. -/
theorem StackOk.added {D : Set ℕ} {t : ℕ} (h : StackOk k t) (he : Enlarges k.heap k'.heap)
    (ha : TablesAdded img D k.machine k'.machine) (hd : frameOf (k.tasks t).cr3 ∈ D)
    (hstack : (k'.tasks t).kernelStackBottom = (k.tasks t).kernelStackBottom)
    (hcr3 : (k'.tasks t).cr3 = (k.tasks t).cr3) : StackOk k' t := by
  refine ⟨?_, fun a hon => ?_⟩
  · rw [hstack]
    exact he.block _ _ h.block
  · unfold OnStack at hon
    rw [hstack] at hon
    obtain ⟨hge, hle, hmax⟩ := h.block.bounds
    have hslot := Shares.heapSlot (hge.trans hon.1) (hon.2.trans_le (hle.trans hmax))
    have hp := h.slots a hon
    rw [hcr3, ha.stay _ hd _ hslot hp]
    exact hp

theorem Stacked.sameTasks (h : Stacked img k) (he : Enlarges k.heap k'.heap)
    (hop : Opened img {d | k.HasDirectory img d} {d | k.HasDirectory img d} k k')
    (hs : SameTasks k k') : Stacked img k' := by
  refine ⟨hop.shares.mono ?_, fun t ht hne => ?_⟩
  · rintro d (rfl | ⟨t, ht, rfl⟩)
    · exact Or.inl rfl
    · exact Or.inr ⟨t, hs.alive ▸ ht, by rw [hs.tasks]⟩
  · rw [hs.alive] at ht
    exact (h.stack t ht hne).added he hop.added (Or.inr ⟨t, ht, rfl⟩) (by rw [hs.tasks])
      (by rw [hs.tasks])

theorem Stacked.created {t : ℕ} (h : Stacked img k) (he : Enlarges k.heap k'.heap)
    (hop : Opened img {d | k.HasDirectory img d}
      (insert (frameOf (k'.tasks t).cr3) {d | k.HasDirectory img d}) k k')
    (hcr : Created k k' t) (hok : StackOk k' t) : Stacked img k' := by
  have hmem : ∀ x ∈ k'.alive, x ≠ t → x ∈ k.alive := by
    intro x hx hxt
    rw [hcr.alive] at hx
    exact List.mem_of_ne_of_mem hxt hx
  refine ⟨hop.shares.mono ?_, fun x hx hne => ?_⟩
  · rintro d (rfl | ⟨x, hx, rfl⟩)
    · exact Or.inr (Or.inl rfl)
    · by_cases hxt : x = t
      · exact Or.inl (by rw [hxt])
      · exact Or.inr (Or.inr ⟨x, hmem x hx hxt, by rw [hcr.old hxt]⟩)
  · by_cases hxt : x = t
    · exact hxt ▸ hok
    · have hx' := hmem x hx hxt
      exact (h.stack x hx' hne).added he hop.added (Or.inr ⟨x, hx', rfl⟩) (by rw [hcr.old hxt])
        (by rw [hcr.old hxt])

section current
variable (h : Stacked img k) (hctx : ContextOk k) (hc : Consistent img k buffers l)
include h hctx hc

/-- The ledger of a clean machine. -/
theorem Stacked.spaced (hf : Frames img k ρ) : Spaced img k ρ {d | k.HasDirectory img d} := by
  refine ⟨hf.layout, fun d hd => hf.isDirectory_of_has hd, ?_, h.shares, owns_nil hc.owns⟩
  rw [hctx.cr3]
  exact Or.inr ⟨k.currentTask, hc.current_mem, rfl⟩

theorem Stacked.kmalloc {bytes : UInt32} {p : ℕ} (hf : Frames img k ρ)
    (hk : k.kmalloc img bytes = some (p, k')) (hclean : Clean k'.machine)
    (hr : k'.heap.heapCurrentEnd ≠ k.heap.heapCurrentEnd → Extensible img k) :
    Stacked img k' := by
  have hs := h.spaced hctx hc hf
  obtain ⟨a, -⟩ := Allocates.kmalloc hk hs.owns
  obtain ⟨⟨ρ', hs', -⟩, hadv⟩ := a.spaced hclean.outOfMemory hr ρ _ hs
  obtain ⟨heap, machine, rfl, -⟩ := kmalloc_cases hk hc.owns
  exact h.sameTasks a.heap ⟨hs'.shares, hadv.added⟩ ⟨rfl, rfl, rfl, rfl, rfl, rfl⟩

/-- The stack of a kernel task is reached through the kernel's directory. -/
theorem Stacked.createTask {t : ℕ} (hf : Frames img k ρ) (hk : k.createTask img = some (t, k'))
    (hclean : Clean k'.machine)
    (hr : k'.heap.heapCurrentEnd ≠ k.heap.heapCurrentEnd → Extensible img k) :
    Stacked img k' := by
  have hs := h.spaced hctx hc hf
  obtain ⟨a, hb⟩ := Allocates.createTask hk hc.currentHeld hc.owns
  obtain ⟨⟨ρ', hs', -⟩, hadv⟩ := a.spaced hclean.outOfMemory hr ρ _ hs
  obtain ⟨-, ⟨-, hsame, -⟩ | ⟨ht, hcr, stack, hh, ho⟩⟩ := createTask_cases hk hc.currentHeld hc.owns
  · exact h.sameTasks a.heap ⟨hs'.shares, hadv.added⟩ hsame
  · have hd : frameOf (k'.tasks t).cr3 = img.pageDirectory := by
      rw [hh.cr3, hf.kernelSpace _ hc.kernel hf.kernelTask, frameOf_kernel]
    refine h.created a.heap ⟨?_, hadv.added⟩ hcr ⟨hb ht, fun x hx => ?_⟩
    · have hmem : img.pageDirectory ∈ {d | k.HasDirectory img d} := Or.inl rfl
      rw [hd, Set.insert_eq_of_mem hmem]
      exact hs'.shares
    · rw [hd]
      exact (hs'.slot_of_block (hb ht) hx.1 hx.2).2

theorem Stacked.createUserTask {t : ℕ} (hf : Frames img k ρ)
    (hk : k.createUserTask img = some (t, k')) (hclean : Clean k'.machine)
    (hr : k'.heap.heapCurrentEnd ≠ k.heap.heapCurrentEnd → Extensible img k) :
    Stacked img k' := by
  have hs := h.spaced hctx hc hf
  have hu := userTask_of_createUserTask hk
  have he := hu.enlarges hs.owns
  obtain ⟨h0, hop⟩ | ⟨ht, hop, hok⟩ :=
    hs.createUserTask hu hc.currentHeld hc.owns hctx.cr3.symm hclean hr
  · obtain ⟨-, hsame, -⟩ | ⟨ht, -⟩ := createUserTask_cases hk hc.currentHeld hc.owns
    · exact h.sameTasks he hop hsame
    · exact absurd h0 ht
  · obtain ⟨h0, -⟩ | ⟨-, hcr, -⟩ := createUserTask_cases hk hc.currentHeld hc.owns
    · exact absurd h0 ht
    · exact h.created he hop hcr hok

theorem Stacked.createUserProcess {t : ℕ} {file : Option Program} (hf : Frames img k ρ)
    (hk : k.createUserProcess img file = some (t, k')) (hclean : Clean k'.machine)
    (hr : k'.heap.heapCurrentEnd ≠ k.heap.heapCurrentEnd → Extensible img k) :
    Stacked img k' := by
  have hs := h.spaced hctx hc hf
  have he := enlarges_createUserProcess hk hc.owns
  obtain ⟨h0, hop⟩ | ⟨ht, hop, hok⟩ :=
    hs.createUserProcess hk hc.currentHeld hc.owns hctx.cr3.symm hclean hr
  · obtain ⟨-, hsame, -⟩ | ⟨ht, -⟩ := createUserProcess_cases hk hc.currentHeld hc.owns
    · exact h.sameTasks he hop hsame
    · exact absurd h0 ht
  · obtain ⟨h0, -⟩ | ⟨-, hcr, -⟩ := createUserProcess_cases hk hc.currentHeld hc.owns
    · exact absurd h0 ht
    · exact h.created he hop hcr hok

theorem Stacked.pageFault {addr : UInt32} {m : Machine} (hf : Frames img k ρ)
    (hm : pageFaultHandler img k.machine addr = some m) :
    Stacked img { k with machine := m } := by
  have hs := h.spaced hctx hc hf
  obtain ⟨hshares, hadded⟩ := h.shares.pageFault hf.layout (hs.isDirectory _ hs.current)
    (Owns.le_max hc.owns) hm
  exact h.sameTasks (.refl hs.owns) ⟨hshares, hadded⟩ ⟨rfl, rfl, rfl, rfl, rfl, rfl⟩

end current

end Kernel

/-- The heap is only used by these. -/
def Op.Allocates : Op → Prop
  | .createTask | .createUserTask | .createUserProcess _ | .kmalloc _ | .pageFault _ => True
  | _ => False

namespace System

variable {img : Image} {s s' : System} {op : Op} {k : Kernel}

/-- A buffer is no stack. -/
theorem leaves_kfree {l : List ℕ} {i p : ℕ} (hc : s.kernel.Consistent img s.buffers l)
    (hp : s.buffers[i]? = some p) : Kernel.Leaves img s.kernel (s.kernel.kfree p) := by
  have hmem : p ∈ s.buffers := List.mem_of_getElem? hp
  refine ⟨⟨List.Sublist.refl _, rfl, fun _ => .refl _⟩, fun _ => rfl, rfl,
    heapCurrentEnd_kfree .., fun t ht hne n hb => ?_⟩
  refine hb.kfree (hc.owns.live (List.mem_append_right _ hmem)) fun he => ?_
  have hdisj := List.disjoint_of_nodup_append hc.owns.nodup
  exact hdisj (Kernel.mem_blocks ht hne).2 (he ▸ hmem)

/-- The kernel that `schedule` is called in, by the operations that call it. -/
def scheduleCall (s : System) : Op → Option Kernel
  | .exitTask => some (s.kernel.setState s.kernel.currentTask .dead)
  | .taskSleep ms =>
      if s.kernel.currentTask = 0 then none
      else some (s.kernel.setTask s.kernel.currentTask { s.kernel.current with
        wakeTick := s.kernel.timerTicks + Kernel.sleepTicks ms, state := .sleeping })
  | .timerHandler =>
      some ({ s.kernel with timerTicks := s.kernel.timerTicks + 1 }).taskTimerTick
  | .schedule => some s.kernel
  | _ => none

theorem step_of_scheduleCall (h : s.scheduleCall op = some k) :
    s.step img op = k.schedule.map s.withKernel := by
  cases op with
  | taskSleep ms =>
      simp only [scheduleCall] at h
      split_ifs at h with h0
      cases h
      simp only [step, Kernel.taskSleep, if_neg h0]
  | exitTask | timerHandler | schedule =>
      cases h
      rfl
  | createTask | createUserTask | createUserProcess | killTask | taskTimerTick | pageFault | kmalloc
  | kfree => cases h

/-- Nothing has happened before the call that matters for the stacks. -/
theorem leaves_scheduleCall {l : List ℕ} (hc : s.kernel.Consistent img s.buffers l)
    (h : s.scheduleCall op = some k) : Kernel.Leaves img s.kernel k ∧
      ∃ l', k.Consistent img s.buffers l' := by
  cases op with
  | exitTask =>
      cases h
      exact ⟨.stop s.kernel .dead s.kernel.current.wakeTick, l, hc.stop _ _⟩
  | taskSleep ms =>
      simp only [scheduleCall] at h
      split_ifs at h
      cases h
      exact ⟨.stop .., l, hc.stop _ _⟩
  | timerHandler =>
      cases h
      obtain ⟨h', hp⟩ := hc.tick
      have htick : Kernel.Leaves img s.kernel
          { s.kernel with timerTicks := s.kernel.timerTicks + 1 } :=
        .of_heap hp (fun _ => rfl) rfl rfl
      exact ⟨htick.trans (.tick h'), l, h'.taskTimerTick⟩
  | schedule =>
      cases h
      exact ⟨.refl _, l, hc⟩
  | createTask | createUserTask | createUserProcess | killTask | taskTimerTick | pageFault | kmalloc
  | kfree => cases h

theorem leaves_step {l : List ℕ} (hc : s.kernel.Consistent img s.buffers l)
    (hs : s.step img op = some s') (hop : ¬ op.Allocates) :
    Kernel.Leaves img s.kernel s'.kernel := by
  cases hcall : s.scheduleCall op with
  | some k =>
      obtain ⟨hl, l', hc'⟩ := leaves_scheduleCall hc hcall
      rw [step_of_scheduleCall hcall] at hs
      obtain ⟨k', hk, rfl⟩ := Option.map_eq_some_iff.1 hs
      exact hl.trans (.schedule hc' hk)
  | none =>
      cases op with
      | killTask pid =>
          cases hs
          exact .killTask hc pid
      | taskSleep ms =>
          have h0 : s.kernel.currentTask = 0 := by
            by_contra h0
            simp only [scheduleCall, if_neg h0] at hcall
            cases hcall
          exact absurd h0 hc.current_ne_zero
      | taskTimerTick =>
          cases hs
          exact .tick hc
      | kfree i =>
          simp only [step] at hs
          cases hi : s.buffers[i]? with
          | none =>
              rw [hi] at hs
              cases hs
              exact .refl _
          | some p =>
              rw [hi] at hs
              cases hs
              exact leaves_kfree hc hi
      | exitTask | timerHandler | schedule => cases hcall
      | createTask | createUserTask | createUserProcess | kmalloc | pageFault =>
          exact absurd trivial hop

theorem enlarges_step {l : List ℕ} (hc : s.kernel.Consistent img s.buffers l)
    (hs : s.step img op = some s') (hop : op.Allocates) :
    Heap.Enlarges s.kernel.heap s'.kernel.heap := by
  have ho := Kernel.owns_nil hc.owns
  cases op with
  | createTask =>
      obtain ⟨⟨t, k⟩, hk, rfl⟩ := Option.map_eq_some_iff.1 hs
      exact (Kernel.Allocates.createTask hk hc.currentHeld hc.owns).1.heap
  | createUserTask =>
      obtain ⟨⟨t, k⟩, hk, rfl⟩ := Option.map_eq_some_iff.1 hs
      exact (Kernel.userTask_of_createUserTask hk).enlarges ho
  | createUserProcess file =>
      obtain ⟨⟨t, k⟩, hk, rfl⟩ := Option.map_eq_some_iff.1 hs
      exact Kernel.enlarges_createUserProcess hk hc.owns
  | kmalloc bytes =>
      obtain ⟨⟨p, k⟩, hk, rfl⟩ := Option.map_eq_some_iff.1 hs
      exact (Kernel.Allocates.kmalloc hk ho).1.heap
  | pageFault addr =>
      obtain ⟨m, hm, rfl⟩ := Option.map_eq_some_iff.1 hs
      exact .refl ho
  | killTask | exitTask | taskSleep | taskTimerTick | timerHandler | schedule | kfree =>
      exact hop.elim

theorem stacked_step {l : List ℕ} (hc : s.kernel.Consistent img s.buffers l)
    (hctx : s.kernel.ContextOk) (hframed : s.kernel.Framed img) (h : s.kernel.Stacked img)
    (hs : s.step img op = some s') (hclean : Clean s'.kernel.machine)
    (hr : s'.kernel.heap.heapCurrentEnd ≠ s.kernel.heap.heapCurrentEnd →
      Kernel.Extensible img s.kernel) : s'.kernel.Stacked img := by
  obtain ⟨ρ, hf⟩ := hframed (onward_step hc hctx hs hclean).1
  cases op with
  | createTask =>
      obtain ⟨⟨t, k⟩, hk, rfl⟩ := Option.map_eq_some_iff.1 hs
      exact h.createTask hctx hc hf hk hclean hr
  | createUserTask =>
      obtain ⟨⟨t, k⟩, hk, rfl⟩ := Option.map_eq_some_iff.1 hs
      exact h.createUserTask hctx hc hf hk hclean hr
  | createUserProcess file =>
      obtain ⟨⟨t, k⟩, hk, rfl⟩ := Option.map_eq_some_iff.1 hs
      exact h.createUserProcess hctx hc hf hk hclean hr
  | kmalloc bytes =>
      obtain ⟨⟨p, k⟩, hk, rfl⟩ := Option.map_eq_some_iff.1 hs
      exact h.kmalloc hctx hc hf hk hclean hr
  | pageFault addr =>
      obtain ⟨m, hm, rfl⟩ := Option.map_eq_some_iff.1 hs
      exact h.pageFault hctx hc hf hm
  | killTask | exitTask | taskSleep | taskTimerTick | timerHandler | schedule | kfree =>
      exact h.leaves (leaves_step hc hs id)

/-- Runs in which the heap grows only while the directory that is loaded has the table for its
next page, if the kernel's directory has it. -/
inductive RunAtHand (img : Image) : System → System → Prop
  | refl (s : System) : RunAtHand img s s
  | tail {s s₁ s₂ : System} {op : Op} : RunAtHand img s s₁ → s₁.step img op = some s₂ →
      (s₂.kernel.heap.heapCurrentEnd ≠ s₁.kernel.heap.heapCurrentEnd →
        Kernel.Extensible img s₁.kernel) → RunAtHand img s s₂

end System

variable {img : Image} {k₀ k : Kernel} {magic : UInt32} {mbi : Pmm.MultibootInfo}

namespace Kernel

/-- The first page of the heap is mapped. -/
theorem spaced_initHeap {p : UInt32} {m m₁ m₂ : Machine} (hp : PagesInv img m.pages)
    (ha : (initVmm img m).allocPage = (p, m₁))
    (hm : vmmMapPage img m₁ (UInt32.ofNat HEAP_START) p (PAGE_PRESENT ||| PAGE_RW) = some m₂)
    (ho : m₂.outOfMemory = false) : ∃ ρ, ∀ mem : Memory.Mem,
      Spaced img { k with machine := m₂, heap := Heap.initHeap mem } ρ {img.pageDirectory} ∧
      Extensible img { k with machine := m₂, heap := Heap.initHeap mem } := by
  have hstart := @Layout.start img _ hp
  have hcr3 : frameOf (initVmm img m).cr3 = img.pageDirectory := frameOf_kernel img
  have hcr3' : frameOf m₂.cr3 = img.pageDirectory := by
    rw [(keeps_vmmMapPage hm).cr3, (Keeps.of_allocPage ha).cr3, hcr3]
  have hslot : ∀ i, IsHeapSlot i → (initVmm img m).frames img.pageDirectory i = 0 := by
    intro i hi
    unfold IsHeapSlot at hi
    rw [frames_initVmm_directory]
    dsimp only
    rw [if_neg (by omega), if_neg (by omega)]
  have hshares : Shares img (initVmm img m) {img.pageDirectory} HEAP_START := by
    refine ⟨?_, fun a h1 h2 => by omega, fun i hi hpi => ?_⟩
    · rintro d rfl i - -
      rfl
    · rw [hslot i hi, present_zero] at hpi
      cases hpi
  have hhand : AtHand img (initVmm img m) HEAP_START := by
    intro _ hk
    unfold Machine.pde
    rw [hcr3]
    exact hk
  obtain ⟨ρ, hl, -⟩ :=
    layout_mapHeap hstart (Or.inl hcr3) le_rfl (by decide) ha hm ho
  obtain ⟨hs, hx, -⟩ := hshares.grow hstart (fun d hd => Or.inl hd) hcr3 le_rfl (by decide)
    (by decide) hhand ha hm ho
  exact ⟨ρ, fun mem => ⟨⟨hl, fun d hd => Or.inl hd, hcr3', hs, owns_initHeap mem⟩, hx⟩⟩

theorem stacked_boot (h : k₀.boot img magic mbi = some k) (hclean : Clean k.machine) :
    k.Stacked img := by
  obtain ⟨-, -, -, -, -, -, hbooted⟩ := boot_cases h
  have hcur : k.tasks img.kernelTask = k.current := by rw [current, hbooted.current]
  obtain ⟨k₁, h1, h⟩ := Option.bind_eq_some_iff.1 h
  obtain ⟨m₂, hm, h1⟩ := Option.bind_eq_some_iff.1 h1
  cases h1
  obtain ⟨k₂, h2, h⟩ := Option.bind_eq_some_iff.1 h
  obtain rfl := Option.some.inj h
  have a := Allocates.initTaskFds h2 (owns_initHeap _)
  have hm₂ := a.keeps.outOfMemory hclean.outOfMemory
  obtain ⟨ρ₀, hs₀⟩ := spaced_initHeap (k := k₀) (pagesInv_initPmm magic mbi) rfl hm hm₂
  obtain ⟨⟨ρ, hs, -⟩, -⟩ := a.spaced hclean.outOfMemory (fun _ => (hs₀ _).2) ρ₀ _
    ((hs₀ _).1.congr rfl rfl)
  refine ⟨hs.shares.mono ?_, fun t ht hne => ?_⟩
  · rintro d (rfl | ⟨t, ht, rfl⟩)
    · rfl
    · rw [hbooted.alive, List.mem_singleton] at ht
      rw [ht, hcur, hbooted.cr3]
      exact frameOf_kernel img
  · rw [hbooted.alive, List.mem_singleton] at ht
    exact absurd ht hne

end Kernel

variable {s : System}

/-- What holds on such a run from `init_tasking` on. -/
theorem System.RunAtHand.stacked (hboot : k₀.boot img magic mbi = some k)
    (hrun : System.RunAtHand img (System.start k) s) :
    (s.Inv img ∧ s.kernel.ContextOk ∧ s.kernel.Framed img) ∧
      (Clean s.kernel.machine → s.kernel.Stacked img) := by
  obtain ⟨_, _, _, _, _, _, hbooted⟩ := Kernel.boot_cases hboot
  generalize hs₀ : System.start k = s₀ at hrun
  induction hrun with
  | refl =>
      subst hs₀
      exact ⟨⟨hbooted.inv, Kernel.contextOk_boot hboot, Kernel.framed_boot hboot⟩,
        Kernel.stacked_boot hboot⟩
  | @tail s₁ s₂ op _ hs hr ih =>
      obtain ⟨⟨hi, hctx, hframed⟩, hst⟩ := ih
      obtain ⟨l, hc⟩ := hi.list
      have hon := System.onward_step hc hctx hs
      refine ⟨⟨hi.step hs, System.contextOk_step hc hctx hs, hframed.onward hon⟩, fun hclean => ?_⟩
      exact System.stacked_step hc hctx hframed (hst (hon hclean).1) hs hclean hr

/-! ### The stacks under the directory that is loaded -/

/-- The page at `a` is present in the directory `cr3`, and is the one of the kernel's. -/
def MappedAsKernel (img : Image) (m : Machine) (cr3 : UInt32) (a : ℕ) : Prop :=
  ∃ f, Machine.translate { m with cr3 := cr3 } (UInt32.ofNat a) = some f ∧
    Machine.translate { m with cr3 := vmmGetKernelPageDirectory img } (UInt32.ofNat a) = some f

/-- In the first 4 MB. -/
theorem mappedAsKernel_low {m : Machine} {cr3 : UInt32} {a : ℕ}
    (hs : IsSpace img m (frameOf cr3)) (hk : IsSpace img m img.pageDirectory)
    (hl : LowMapped img m) (ha : a < 0x400000) : MappedAsKernel img m cr3 a := by
  have ha' : (UInt32.ofNat a).toNat < 0x400000 := by
    rw [UInt32.toNat_ofNat']
    omega
  have hk' : IsSpace img m (frameOf (vmmGetKernelPageDirectory img)) := by
    rw [frameOf_kernel]
    exact hk
  exact ⟨_, translate_low (m := { m with cr3 := cr3 }) (isSpace_congr hs rfl rfl) hl ha',
    translate_low (m := { m with cr3 := _ }) (isSpace_congr hk' rfl rfl) hl ha'⟩

/-- In the heap it takes a table in the directory. -/
theorem Shares.mappedAsKernel_iff {m : Machine} {D : Set ℕ} {e a : ℕ} {cr3 : UInt32}
    (h : Shares img m D e) (hd : frameOf cr3 ∈ D) (h1 : HEAP_START ≤ a) (h2 : a < e)
    (he : e ≤ HEAP_MAX_ADDR) : MappedAsKernel img m cr3 a ↔
      present (m.frames (frameOf cr3) (a / 2 ^ 22)) = true := by
  obtain ⟨hidx, hslot⟩ := pdIdx_heap h1 (h2.trans_le he)
  have hpt : ptIdx (UInt32.ofNat a) = a / 4096 % 1024 := by
    have hlt : a < 2 ^ 32 := by
      simp only [HEAP_MAX_ADDR] at he
      omega
    unfold ptIdx
    rw [UInt32.toNat_ofNat', Nat.mod_eq_of_lt hlt]
  unfold MappedAsKernel Machine.translate Machine.pde
  dsimp only
  rw [hidx, hpt, frameOf_kernel]
  constructor
  · rintro ⟨f, hf, -⟩
    by_contra hp
    rw [if_neg hp] at hf
    cases hf
  · intro hp
    obtain ⟨h3, h4⟩ := h.mapped a h1 h2
    rw [h.agree _ hd _ hslot hp, if_pos h3, if_pos h4]
    exact ⟨_, rfl, rfl⟩

namespace Kernel

/-- The address `a` is on the kernel stack of `t`; that of the first task is in the image. -/
def StackAddr (img : Image) (k : Kernel) (t a : ℕ) : Prop :=
  if t = img.kernelTask then 0x100000 ≤ a ∧ a < img.kernelEnd.toNat else k.OnStack t a

/-- The stacks of `prev` and `next` are mapped in the directory of `next`. -/
def StacksMapped (img : Image) (k : Kernel) (prev next : ℕ) : Prop :=
  ∀ t, t = prev ∨ t = next → ∀ a, k.StackAddr img t a →
    MappedAsKernel img k.machine (k.tasks next).cr3 a

/-- The directory of `next` has tables for the stack of `prev`, if it is in the heap. -/
def HasTables (img : Image) (k : Kernel) (prev next : ℕ) : Prop :=
  prev ≠ img.kernelTask → ∀ a, k.OnStack prev a →
    present (k.machine.frames (frameOf (k.tasks next).cr3) (a / 2 ^ 22)) = true

theorem Stacked.mapped_iff {ρ : Ledger ℕ Use} (h : k.Stacked img) (hf : Frames img k ρ)
    {prev next : ℕ} (hp : prev ∈ k.alive) (hn : next ∈ k.alive) :
    k.StacksMapped img prev next ↔ k.HasTables img prev next := by
  have hd : frameOf (k.tasks next).cr3 ∈ {d | k.HasDirectory img d} := Or.inr ⟨next, hn, rfl⟩
  have hspace := hf.layout.space _ (hf.isDirectory hn)
  have hkernel := hf.layout.space _ (Or.inl rfl)
  have hheap : ∀ t ∈ k.alive, t ≠ img.kernelTask → ∀ a, k.OnStack t a →
      (MappedAsKernel img k.machine (k.tasks next).cr3 a ↔
        present (k.machine.frames (frameOf (k.tasks next).cr3) (a / 2 ^ 22)) = true) := by
    intro t ht hne a ha
    obtain ⟨h1, h2, h3⟩ := (h.stack t ht hne).block.bounds
    exact h.shares.mappedAsKernel_iff hd (h1.trans ha.1) (ha.2.trans_le h2) h3
  constructor
  · intro hm hne a ha
    refine (hheap prev hp hne a ha).1 (hm prev (Or.inl rfl) a ?_)
    unfold StackAddr
    rw [if_neg hne]
    exact ha
  · rintro hs t ht a ha
    unfold StackAddr at ha
    split_ifs at ha with hk
    · exact mappedAsKernel_low hspace hkernel hf.layout.low (ha.2.trans_le img.le)
    · obtain rfl | rfl := ht
      · exact (hheap t hp hk a ha).2 (hs hk a ha)
      · exact (hheap t hn hk a ha).2 ((h.stack t hn hk).slots a ha)

/-- Both are about what `Leaves` keeps. -/
theorem Leaves.onStack_iff {k' : Kernel} (h : Leaves img k k') (t a : ℕ) :
    k'.OnStack t a ↔ k.OnStack t a := by
  unfold OnStack
  rw [h.stack]

theorem Leaves.hasTables_iff {k' : Kernel} (h : Leaves img k k') {prev next : ℕ} :
    k'.HasTables img prev next ↔ k.HasTables img prev next := by
  unfold HasTables
  simp only [h.onStack_iff, h.frames, (h.persists.tasks next).cr3]

theorem Leaves.stacksMapped_iff {k' : Kernel} (h : Leaves img k k') {prev next : ℕ} :
    k'.StacksMapped img prev next ↔ k.StacksMapped img prev next := by
  unfold StacksMapped StackAddr MappedAsKernel Machine.translate Machine.pde
  simp only [h.onStack_iff, h.frames, (h.persists.tasks next).cr3]

/-- `schedule` loads the directory of `next`; `k₁` is the kernel that it does so in. -/
structure Loads (k : Kernel) (next : ℕ) (k₁ : Kernel) : Prop where
  other : ¬ (k.currentTask = 0 ∨ k.current.next = k.currentTask)
  search : scheduleLoop k.currentTask k.alive.length k k.current.next = (next, k₁)
  ready : (k₁.tasks next).state = .ready
  ne : (k₁.tasks k.currentTask).cr3 ≠ (k₁.tasks next).cr3

theorem Loads.schedule_eq {next : ℕ} {k₁ : Kernel} (h : k.Loads next k₁) :
    k.schedule = k₁.switchTo k.currentTask next := by
  unfold schedule
  rw [if_neg h.other]
  dsimp only
  rw [h.search]
  exact if_neg (not_not.2 h.ready)

theorem Loads.cases {buffers l : List ℕ} {next : ℕ} {k₁ : Kernel} (h : k.Loads next k₁)
    (hc : Consistent img k buffers l) : Kills k k₁ ∧ (∃ l₁, Consistent img k₁ buffers l₁) ∧
      k.currentTask ∈ k₁.alive ∧ next ∈ k₁.alive := by
  have hstart : k.current.next = l.headD k.currentTask := hc.ring.next_eq
  have hf : l.length < k.alive.length := by
    rw [hc.alive.length_eq, List.length_cons]
    omega
  obtain ⟨k₂, l₂, next', hs, hkills, h', hcur, hnext⟩ :=
    scheduleLoop_spec (show Consistent img k buffers ([] ++ l) from hc) hf
  rw [← hstart, h.search] at hs
  cases hs
  have hmem := h'.current_mem
  rw [hcur] at hmem
  refine ⟨hkills, ⟨l₂, h'⟩, hmem, ?_⟩
  rw [h'.mem_iff, hcur]
  exact hnext.imp_right fun hn => hn.1

end Kernel

/-- `schedule` calls nothing before it that matters for the stacks. -/
theorem Kernel.Loads.leaves {l : List ℕ} {op : Op} {k' k₁ : Kernel} {next : ℕ}
    (hload : k'.Loads next k₁) (hc : s.kernel.Consistent img s.buffers l)
    (hcall : s.scheduleCall op = some k') : Kernel.Leaves img s.kernel k₁ ∧
      k'.currentTask ∈ s.kernel.alive ∧ next ∈ s.kernel.alive := by
  obtain ⟨hleaves, l', hc'⟩ := System.leaves_scheduleCall hc hcall
  obtain ⟨hkills, -, hprev, hnext⟩ := hload.cases hc'
  have hall := hleaves.trans (.kills hc' hkills)
  exact ⟨hall, hall.persists.alive.subset hprev, hall.persists.alive.subset hnext⟩

/-- **A switch needs the tables of the stack it leaves**: when `schedule` loads another directory,
both stacks are mapped there exactly if it has those tables, as long as the heap has grown only
where its tables were at hand. -/
theorem run_stacks_mapped_iff (hboot : k₀.boot img magic mbi = some k)
    (hrun : System.RunAtHand img (System.start k) s)
    (ho : s.kernel.machine.outOfMemory = false) (hh : s.kernel.machine.highDirectory = false)
    {op : Op} {k' k₁ : Kernel} {next : ℕ} (hcall : s.scheduleCall op = some k')
    (hload : k'.Loads next k₁) :
    k₁.StacksMapped img k'.currentTask next ↔ k₁.HasTables img k'.currentTask next := by
  obtain ⟨⟨hi, -, hframed⟩, hst⟩ := hrun.stacked hboot
  obtain ⟨l, hc⟩ := hi.list
  obtain ⟨ρ, hf⟩ := hframed ⟨ho, hh⟩
  obtain ⟨hl, hp, hn⟩ := hload.leaves hc hcall
  rw [hl.stacksMapped_iff, hl.hasTables_iff]
  exact (hst ⟨ho, hh⟩).mapped_iff hf hp hn

/-! ### While one table is enough for the heap -/

namespace Kernel

variable {buffers l : List ℕ} {ρ : Ledger ℕ Use}

/-- While one table is enough for the heap, it is in every directory: a task has it for its own
stack. -/
theorem Stacked.present_first (h : k.Stacked img) (hc : Consistent img k buffers l)
    (hf : Frames img k ρ) (he : k.heap.heapCurrentEnd ≤ HEAP_START + 0x400000) {t a : ℕ}
    (ht : t ∈ k.alive) (h1 : HEAP_START ≤ a) (h2 : a < k.heap.heapCurrentEnd) :
    present (k.machine.frames (frameOf (k.tasks t).cr3) (a / 2 ^ 22)) = true := by
  by_cases hk : t = img.kernelTask
  · rw [hk, hf.kernelSpace _ hc.kernel hf.kernelTask, frameOf_kernel]
    exact (h.shares.mapped a h1 h2).1
  · obtain ⟨hge, hle, -⟩ := (h.stack t ht hk).block.bounds
    have hsize : 0 < TASK_STACK_SIZE.toNat := by decide
    have hs := (h.stack t ht hk).slots (k.tasks t).kernelStackBottom
      ⟨le_rfl, Nat.lt_add_of_pos_right hsize⟩
    have hidx : a / 2 ^ 22 = (k.tasks t).kernelStackBottom / 2 ^ 22 := by
      simp only [HEAP_START] at h1 hge he
      omega
    rw [hidx]
    exact hs

theorem Stacked.extensible (h : k.Stacked img) (hctx : k.ContextOk)
    (hc : Consistent img k buffers l) (hf : Frames img k ρ)
    (he : k.heap.heapCurrentEnd ≤ HEAP_START + 0x400000) : Extensible img k := by
  intro hi hk
  have hlt := h.shares.opened _ hi hk
  have hidx : k.heap.heapCurrentEnd / 2 ^ 22 = HEAP_START / 2 ^ 22 := by
    unfold IsHeapSlot at hi
    simp only [HEAP_START] at he ⊢
    omega
  unfold Machine.pde
  rw [hctx.cr3, hidx]
  refine h.present_first hc hf he hc.current_mem le_rfl ?_
  rw [hidx] at hlt
  simp only [HEAP_START] at hlt ⊢
  omega

theorem Stacked.hasTables (h : k.Stacked img) (hc : Consistent img k buffers l)
    (hf : Frames img k ρ) (he : k.heap.heapCurrentEnd ≤ HEAP_START + 0x400000) {prev next : ℕ}
    (hp : prev ∈ k.alive) (hn : next ∈ k.alive) : k.HasTables img prev next := by
  intro hk a ha
  obtain ⟨hge, hle, -⟩ := (h.stack prev hp hk).block.bounds
  exact h.present_first hc hf he hn (hge.trans ha.1) (ha.2.trans_le hle)

end Kernel

theorem System.heapEnd_le_step {s s' : System} {op : Op} (hi : s.Inv img)
    (hs : s.step img op = some s') :
    s.kernel.heap.heapCurrentEnd ≤ s'.kernel.heap.heapCurrentEnd := by
  obtain ⟨l, hc⟩ := hi.list
  by_cases hop : op.Allocates
  · exact (System.enlarges_step hc hs hop).le
  · exact (System.leaves_step hc hs hop).heapEnd.ge

/-- With one table the heap grows at any time. -/
theorem System.runAtHand_of_run {s : System} {ops : List Op}
    (hboot : k₀.boot img magic mbi = some k) (hrun : (System.start k).run img ops = some s)
    (hclean : Clean s.kernel.machine)
    (he : s.kernel.heap.heapCurrentEnd ≤ HEAP_START + 0x400000) :
    System.RunAtHand img (System.start k) s := by
  obtain ⟨_, _, _, _, _, _, hbooted⟩ := Kernel.boot_cases hboot
  have h : (s.Inv img ∧ s.kernel.ContextOk) ∧ (Clean s.kernel.machine →
      s.kernel.heap.heapCurrentEnd ≤ HEAP_START + 0x400000 →
      System.RunAtHand img (System.start k) s) := by
    refine System.run_induction (P := fun s => (s.Inv img ∧ s.kernel.ContextOk) ∧
      (Clean s.kernel.machine → s.kernel.heap.heapCurrentEnd ≤ HEAP_START + 0x400000 →
        System.RunAtHand img (System.start k) s)) ?_
      ⟨⟨hbooted.inv, Kernel.contextOk_boot hboot⟩, fun _ _ => .refl _⟩ hrun
    rintro s₁ op s₂ ⟨⟨hi, hctx⟩, hall⟩ hs
    obtain ⟨l, hc⟩ := hi.list
    refine ⟨⟨hi.step hs, System.contextOk_step hc hctx hs⟩, fun hclean he => ?_⟩
    have hon := (System.onward_step hc hctx hs hclean).1
    have hle := (System.heapEnd_le_step hi hs).trans he
    have hrun₁ := hall hon hle
    refine hrun₁.tail hs fun _ => ?_
    obtain ⟨⟨-, -, hframed⟩, hst⟩ := hrun₁.stacked hboot
    obtain ⟨ρ, hf⟩ := hframed hon
    exact (hst hon).extensible hctx hc hf hle
  exact h.2 hclean he

/-- **Every switch finds both stacks mapped**, as long as the heap has not grown beyond its first
page table. -/
theorem run_stacks_mapped {s : System} {ops : List Op}
    (hboot : k₀.boot img magic mbi = some k) (hrun : (System.start k).run img ops = some s)
    (ho : s.kernel.machine.outOfMemory = false) (hh : s.kernel.machine.highDirectory = false)
    (he : s.kernel.heap.heapCurrentEnd ≤ HEAP_START + 0x400000) {op : Op} {k' k₁ : Kernel}
    {next : ℕ} (hcall : s.scheduleCall op = some k') (hload : k'.Loads next k₁) :
    k₁.StacksMapped img k'.currentTask next := by
  have hrun' := System.runAtHand_of_run hboot hrun ⟨ho, hh⟩ he
  obtain ⟨⟨hi, -, hframed⟩, hst⟩ := hrun'.stacked hboot
  obtain ⟨l, hc⟩ := hi.list
  obtain ⟨ρ, hf⟩ := hframed ⟨ho, hh⟩
  obtain ⟨hl, hp, hn⟩ := hload.leaves hc hcall
  rw [hl.stacksMapped_iff]
  exact ((hst ⟨ho, hh⟩).mapped_iff hf hp hn).2 ((hst ⟨ho, hh⟩).hasTables hc hf he hp hn)

/-! ### The kernel task and a user task -/

namespace Kernel

variable {img : Image} {k k' k'' : Kernel} {n m p : ℕ} {bytes : UInt32}

/-- The heap gave at most `n` bytes of its largest block, and did not grow for them. -/
def Spends (k k' : Kernel) (n : ℕ) : Prop := ∀ r, n ≤ r → Room k.heap r →
  Room k'.heap (r - n) ∧ k'.heap.heapCurrentEnd = k.heap.heapCurrentEnd

theorem Spends.trans (h : Spends k k' n) (h' : Spends k' k'' m) : Spends k k'' (n + m) := by
  intro r hle hr
  obtain ⟨hr₁, he₁⟩ := h r (by omega) hr
  obtain ⟨hr₂, he₂⟩ := h' (r - n) (by omega) hr₁
  exact ⟨by rwa [Nat.sub_sub] at hr₂, he₂.trans he₁⟩

theorem Spends.kmalloc (hk : k.kmalloc img bytes = some (p, k')) (h0 : bytes ≠ 0) :
    Spends k k' (alignedSize bytes + 20) := by
  intro r hle hr
  obtain ⟨q, h', he, -, hroom⟩ := hr.kmalloc_any (growHeap img) h0 hle
  obtain ⟨heap, machine, rfl, hs⟩ := kmalloc_some hk
  rw [he] at hs
  cases hs
  refine ⟨Room.mono hroom (by omega), ?_⟩
  -- without a machine there are no pages
  obtain ⟨bs, d, hok, -⟩ := hr
  have ho : Owns k.heap [] := ⟨bs, hok, List.nodup_nil, by simp⟩
  have hend : (Heap.kmalloc (growHeap img) bytes k.heap none).2.1.heapCurrentEnd =
      k.heap.heapCurrentEnd ∧ (Heap.kmalloc (growHeap img) bytes k.heap none).2.2 = none := by
    refine kmalloc_grown (P := fun e s => e = k.heap.heapCurrentEnd ∧ s = none) ?_ ?_ ho bytes
      ⟨rfl, rfl⟩
    · rintro e s page - - - ⟨-, rfl⟩ hp
      cases hp
    · rintro e s - - ⟨rfl, rfl⟩ -
      exact ⟨rfl, rfl⟩
  rw [he none] at hend
  exact hend.1

theorem Spends.createFile {type : FileType} {ops : FileOps}
    (hk : Kernel.createFile img k type ops = some (p, k')) : Spends k k' 88 := by
  obtain ⟨⟨q, k₁⟩, h1, h⟩ := Option.bind_eq_some_iff.1 hk
  cases h
  have h := Spends.kmalloc h1 (by decide)
  exact h

theorem Spends.initTaskFds {t : ℕ} (hk : k.initTaskFds img t = some k') : Spends k k' 264 := by
  obtain ⟨⟨f₀, k₁⟩, h1, h⟩ := Option.bind_eq_some_iff.1 hk
  obtain ⟨⟨f₁, k₂⟩, h2, h⟩ := Option.bind_eq_some_iff.1 h
  obtain ⟨⟨f₂, k₃⟩, h3, h⟩ := Option.bind_eq_some_iff.1 h
  cases h
  have h₁ : Spends _ _ _ := createFile h1
  have h₂ : Spends _ _ _ := createFile h2
  have h₃ : Spends _ _ _ := createFile h3
  exact (h₁.trans h₂).trans h₃

theorem Spends.addTask {t stack : ℕ} {userStack cr3 : UInt32} {isUser : Bool}
    (hk : k.addTask img t stack userStack cr3 isUser = some k') : Spends k k' 264 := by
  obtain ⟨k₁, h1, h⟩ := Option.bind_eq_some_iff.1 hk
  cases h
  have h : Spends _ _ _ := initTaskFds h1
  exact h

theorem Spends.createUserTask {t : ℕ} (hk : k.createUserTask img = some (t, k')) (ht : t ≠ 0) :
    Spends k k' 1480 := by
  have hstack : alignedSize TASK_STACK_SIZE = 1024 := by decide
  have htask : alignedSize TASK_SIZE = 152 := by decide
  cases userTask_of_createUserTask hk with
  | task h1 _ _ h2 _ _ h4 =>
      have hs := kmalloc h1 (by decide)
      have ht : Spends _ _ _ := kmalloc h2 (by decide)
      have hf : Spends _ _ _ := addTask h4
      rw [hstack] at hs
      rw [htask] at ht
      exact (hs.trans ht).trans hf
  | noPage | noStack | noTask => exact absurd rfl ht

theorem Spends.heapEnd_boot {k₀ : Kernel} {magic : UInt32} {mbi : Pmm.MultibootInfo}
    (h : k₀.boot img magic mbi = some k) :
    k.heap.heapCurrentEnd = HEAP_START + 0x1000 := by
  obtain ⟨k₁, h1, h⟩ := Option.bind_eq_some_iff.1 h
  obtain ⟨m₂, hm, h1⟩ := Option.bind_eq_some_iff.1 h1
  cases h1
  obtain ⟨k₂, h2, h⟩ := Option.bind_eq_some_iff.1 h
  obtain rfl := Option.some.inj h
  have hf : Spends _ _ _ := initTaskFds h2
  exact (hf 4080 (by decide) (room_initHeap _)).2

end Kernel

/-- The directory of the kernel is at hand where it is loaded. -/
theorem Kernel.extensible_of_kernel (h : frameOf k.machine.cr3 = img.pageDirectory) :
    k.Extensible img := by
  intro _ hk
  unfold Machine.pde
  rw [h]
  exact hk

theorem Kernel.loads_next {buffers l : List ℕ} (hc : k.Consistent img buffers l)
    (hne : k.current.next ≠ k.currentTask) (hready : (k.tasks k.current.next).state = .ready)
    (hcr3 : (k.tasks k.currentTask).cr3 ≠ (k.tasks k.current.next).cr3) :
    k.Loads k.current.next k := by
  have hpos := List.length_pos_of_mem hc.current_mem
  obtain ⟨n, hn⟩ := Nat.exists_eq_succ_of_ne_zero hpos.ne'
  refine ⟨not_or.2 ⟨hc.current_ne_zero, hne⟩, ?_, hready, hcr3⟩
  rw [hn]
  simp [scheduleLoop, hready]

/-- The kernel task has created a user task, and is about to run it. -/
structure UserNext (k : Kernel) (s : System) (t : ℕ) : Prop where
  boot : blankKernel.boot smallImage Pmm.MULTIBOOT_BOOTLOADER_MAGIC smallMap = some k
  run : (System.start k).run smallImage [.createUserTask] = some s
  atHand : System.RunAtHand smallImage (System.start k) s
  outOfMemory : s.kernel.machine.outOfMemory = false
  highDirectory : s.kernel.machine.highDirectory = false
  heapEnd : s.kernel.heap.heapCurrentEnd ≤ HEAP_START + 0x400000
  loads : s.kernel.Loads t s.kernel

theorem exists_userNext : ∃ k s t, UserNext k s t := by
  obtain ⟨k, hboot, hcalm⟩ := blankKernel_boot
  obtain ⟨_, _, _, _, _, _, hbooted⟩ := Kernel.boot_cases hboot
  have hinv : (System.start k).Inv smallImage := hbooted.inv
  obtain ⟨l, hc⟩ := hinv.list
  obtain ⟨⟨t, k'⟩, hk, ht, -, hopen, -, hcr3, -⟩ :=
    Kernel.createUserTask_of_calm hcalm (show 2000 + 1500 ≤ 3800 by omega) (by omega) (by omega)
  obtain ⟨h0, -⟩ | ⟨-, hcr, -⟩ := Kernel.createUserTask_cases hk hc.currentHeld hc.owns
  · exact absurd h0 ht
  have hstep : (System.start k).step smallImage .createUserTask =
      some ((System.start k).withTask (t, k')) := by
    simp only [System.step, System.start, hk, Option.map_some]
  obtain ⟨l', hc'⟩ := (hinv.step hstep).list
  have hnew : t ≠ k.currentTask := by
    have hn := (hc'.nodup)
    rw [show ((System.start k).withTask (t, k')).kernel.alive = t :: k.alive from hcr.alive] at hn
    rintro rfl
    exact (List.nodup_cons.1 hn).1 hc.current_mem
  have hnext : k'.current.next = t := by
    unfold Kernel.current
    rw [hcr.currentTask, hcr.current]
  have hloaded : frameOf k.machine.cr3 = smallImage.pageDirectory := by
    rw [← hcalm.cr3, hbooted.cr3, frameOf_kernel]
  refine ⟨k, _, t, hboot, by rw [System.run_cons hstep, System.run_nil],
    (System.RunAtHand.refl _).tail hstep fun _ => Kernel.extensible_of_kernel hloaded,
    hopen.outOfMemory, hopen.highDirectory, ?_, ?_⟩
  · have he := (Kernel.Spends.createUserTask hk ht 3800 (by decide) hcalm.room).2
    have hb := Kernel.Spends.heapEnd_boot hboot
    show k'.heap.heapCurrentEnd ≤ _
    rw [he, hb]
    decide
  · have hl := Kernel.loads_next hc' (k := k') (by rw [hnext, hcr.currentTask]; exact hnew)
      (by rw [hnext]; exact hcr.state) ?_
    · rw [hnext] at hl
      exact hl
    · rw [hnext, hcr.currentTask, hcr.current, hcr3]
      show k.current.cr3 ≠ _
      rw [hbooted.cr3]
      decide

/-- In it both stacks are mapped for the user task. -/
theorem run_stacks_mapped_userNext : ∃ k s t,
    blankKernel.boot smallImage Pmm.MULTIBOOT_BOOTLOADER_MAGIC smallMap = some k ∧
    (System.start k).run smallImage [.createUserTask] = some s ∧
    s.scheduleCall .schedule = some s.kernel ∧ s.kernel.Loads t s.kernel ∧
    s.kernel.StacksMapped smallImage s.kernel.currentTask t := by
  obtain ⟨k, s, t, h⟩ := exists_userNext
  exact ⟨k, s, t, h.boot, h.run, rfl, h.loads,
    run_stacks_mapped h.boot h.run h.outOfMemory h.highDirectory h.heapEnd
      (show s.scheduleCall .schedule = some s.kernel from rfl) h.loads⟩

theorem run_stacks_mapped_iff_userNext : ∃ k s t,
    blankKernel.boot smallImage Pmm.MULTIBOOT_BOOTLOADER_MAGIC smallMap = some k ∧
    System.RunAtHand smallImage (System.start k) s ∧
    s.scheduleCall .schedule = some s.kernel ∧ s.kernel.Loads t s.kernel ∧
    (s.kernel.StacksMapped smallImage s.kernel.currentTask t ↔
      s.kernel.HasTables smallImage s.kernel.currentTask t) := by
  obtain ⟨k, s, t, h⟩ := exists_userNext
  exact ⟨k, s, t, h.boot, h.atHand, rfl, h.loads,
    run_stacks_mapped_iff h.boot h.atHand h.outOfMemory h.highDirectory
      (show s.scheduleCall .schedule = some s.kernel from rfl) h.loads⟩

end NosmeriOs.Tasks
