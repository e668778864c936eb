import NosmeriOs.TaskFrames

/-! # What user tasks can access

* `Frames img k ρ`: the directories of the user tasks are distinct, and the ledger says what their
  frames are used for.
* `Onward`: what a step does to the ledger as long as the machine is `Clean`: no call of
  `pmm_alloc_page` has returned `0` and no directory is at 4 MB or above.  `kill_task` frees the
  directory and the stack only; the entries of the tables and the other pages are struck out,
  though they stay marked (`Stranded`).  `onward_step` is about every step.
* `run_apart`: along every run, what a user task can access between 4 MB and 3 GB is its own.
* `run_protected`: the first 4 MB, where the kernel is, are open to every user task. -/

namespace NosmeriOs.Tasks

open Vmm Vfs Heap Ledgers

/-- Every call of `pmm_alloc_page` has found a page, and all directories are below 4 MB. -/
structure Clean (m : Machine) : Prop where
  outOfMemory : m.outOfMemory = false
  highDirectory : m.highDirectory = false

theorem Keeps.clean {m m' : Machine} (h : Keeps m m') (hc : Clean m') : Clean m :=
  ⟨h.outOfMemory hc.outOfMemory, h.highDirectory hc.highDirectory⟩

namespace Kernel

variable {img : Image} {k k' : Kernel} {buffers l : List ℕ} {ρ ρ' : Ledger ℕ Use}

/-- The directory in frame `d` and the stack in frame `f` are those of the task. -/
structure UserSpace (ρ : Ledger ℕ Use) (t : Task) (d f : ℕ) : Prop where
  cr3 : t.cr3 = frameAddr d
  stack : t.userStackBottom = frameAddr f
  directory_lt : d < 2 ^ 20
  stack_lt : f < 2 ^ 20
  directory : ρ d = some .directory
  page : ρ f = some (.page d)

/-- Each user task has a directory of its own, and the others the kernel's. -/
structure Frames (img : Image) (k : Kernel) (ρ : Ledger ℕ Use) : Prop where
  layout : Layout img k.machine ρ
  kernelTask : (k.tasks img.kernelTask).isUser = false
  kernelSpace : ∀ t ∈ k.alive, (k.tasks t).isUser = false →
    (k.tasks t).cr3 = vmmGetKernelPageDirectory img
  userSpace : ∀ t ∈ k.alive, (k.tasks t).isUser = true → ∃ d f, UserSpace ρ (k.tasks t) d f
  distinct : ∀ t ∈ k.alive, ∀ u ∈ k.alive, (k.tasks t).isUser = true →
    (k.tasks u).isUser = true → (k.tasks t).cr3 = (k.tasks u).cr3 → t = u

/-- The ledger is only kept on a clean machine. -/
def Framed (img : Image) (k : Kernel) : Prop := Clean k.machine → ∃ ρ, Frames img k ρ

theorem UserSpace.frameOf_cr3 {t : Task} {d f : ℕ} (h : UserSpace ρ t d f) :
    frameOf t.cr3 = d := by
  rw [h.cr3, frameOf_frameAddr h.directory_lt]

namespace Frames

theorem isDirectory (h : Frames img k ρ) {t : ℕ} (ht : t ∈ k.alive) :
    IsDirectory img ρ (frameOf (k.tasks t).cr3) := by
  cases hu : (k.tasks t).isUser with
  | false =>
      rw [h.kernelSpace t ht hu, frameOf_kernel]
      exact Or.inl rfl
  | true =>
      obtain ⟨d, f, hs⟩ := h.userSpace t ht hu
      rw [hs.frameOf_cr3]
      exact Or.inr hs.directory

/-- Tasks may be removed, and the others keep what they hold. -/
theorem persists (h : Frames img k ρ) (hp : Persists k k') (hl : Layout img k'.machine ρ')
    (hk : ∀ t ∈ k'.alive, ∀ d f, (k.tasks t).isUser = true → UserSpace ρ (k.tasks t) d f →
      ρ' d = some .directory ∧ ρ' f = some (.page d)) : Frames img k' ρ' := by
  refine ⟨hl, ?_, fun t ht hu => ?_, fun t ht hu => ?_, fun t ht u hu h1 h2 he => ?_⟩
  · rw [(hp.tasks _).isUser]
    exact h.kernelTask
  · rw [(hp.tasks t).isUser] at hu
    rw [(hp.tasks t).cr3]
    exact h.kernelSpace t (hp.alive.subset ht) hu
  · rw [(hp.tasks t).isUser] at hu
    obtain ⟨d, f, hs⟩ := h.userSpace t (hp.alive.subset ht) hu
    obtain ⟨h1, h2⟩ := hk t ht d f hu hs
    exact ⟨d, f, by rw [(hp.tasks t).cr3, hs.cr3],
      by rw [(hp.tasks t).userStackBottom, hs.stack], hs.directory_lt, hs.stack_lt, h1, h2⟩
  · rw [(hp.tasks t).isUser] at h1
    rw [(hp.tasks u).isUser] at h2
    rw [(hp.tasks t).cr3, (hp.tasks u).cr3] at he
    exact h.distinct t (hp.alive.subset ht) u (hp.alive.subset hu) h1 h2 he

/-- Entries are only added. -/
theorem extend (h : Frames img k ρ) (hp : Persists k k') (hl : Layout img k'.machine ρ')
    (he : ∀ f u, ρ f = some u → ρ' f = some u) : Frames img k' ρ' :=
  h.persists hp hl fun _ _ _ _ _ hs => ⟨he _ _ hs.directory, he _ _ hs.page⟩

/-- A task with its directory and stack comes in. -/
theorem created (h : Frames img k ρ) {t : ℕ} (ht : t ∉ k.alive) (hkt : t ≠ img.kernelTask)
    (hcr : Created k k' t) (hl : Layout img k'.machine ρ')
    (he : ∀ f u, ρ f = some u → ρ' f = some u)
    (hkernel : (k'.tasks t).isUser = false → (k'.tasks t).cr3 = vmmGetKernelPageDirectory img)
    (huser : (k'.tasks t).isUser = true → ∃ d f, UserSpace ρ' (k'.tasks t) d f ∧ ρ d = none) :
    Frames img k' ρ' := by
  have hold : ∀ x, x ≠ t → SameTask (k.tasks x) (k'.tasks x) := by
    intro x hx
    rw [hcr.old hx]
    exact ⟨rfl, rfl, rfl, rfl, rfl⟩
  have hmem : ∀ {x}, x ∈ k'.alive → x = t ∨ x ≠ t ∧ x ∈ k.alive := by
    intro x hx
    rw [hcr.alive, List.mem_cons] at hx
    obtain rfl | hx := hx
    · exact Or.inl rfl
    · exact Or.inr ⟨fun e => ht (e ▸ hx), hx⟩
  -- the new directory is nobody else's
  have hnew : ∀ x ∈ k.alive, x ≠ t → (k.tasks x).isUser = true → (k'.tasks t).isUser = true →
      (k.tasks x).cr3 ≠ (k'.tasks t).cr3 := by
    intro x hx hxt hu hu' heq
    obtain ⟨d, f, hs, hd⟩ := huser hu'
    obtain ⟨d', f', hs'⟩ := h.userSpace x hx hu
    have h1 := hs'.frameOf_cr3
    rw [heq, hs.frameOf_cr3] at h1
    have h2 := hs'.directory
    rw [← h1, hd] at h2
    cases h2
  refine ⟨hl, ?_, fun x hx hu => ?_, fun x hx hu => ?_, fun x hx y hy h1 h2 heq => ?_⟩
  · rw [(hold _ hkt.symm).isUser]
    exact h.kernelTask
  · obtain rfl | ⟨hxt, hx⟩ := hmem hx
    · exact hkernel hu
    · rw [(hold x hxt).isUser] at hu
      rw [(hold x hxt).cr3]
      exact h.kernelSpace x hx hu
  · obtain rfl | ⟨hxt, hx⟩ := hmem hx
    · obtain ⟨d, f, hs, -⟩ := huser hu
      exact ⟨d, f, hs⟩
    · rw [(hold x hxt).isUser] at hu
      obtain ⟨d, f, hs⟩ := h.userSpace x hx hu
      exact ⟨d, f, by rw [(hold x hxt).cr3, hs.cr3], by rw [(hold x hxt).userStackBottom, hs.stack],
        hs.directory_lt, hs.stack_lt, he _ _ hs.directory, he _ _ hs.page⟩
  · obtain rfl | ⟨hxt, hx⟩ := hmem hx
    · obtain rfl | ⟨hyt, hy⟩ := hmem hy
      · rfl
      · rw [(hold y hyt).isUser] at h2
        rw [(hold y hyt).cr3] at heq
        exact absurd heq.symm (hnew y hy hyt h2 h1)
    · rw [(hold x hxt).isUser] at h1
      rw [(hold x hxt).cr3] at heq
      obtain rfl | ⟨hyt, hy⟩ := hmem hy
      · exact absurd heq (hnew x hx hxt h1 h2)
      · rw [(hold y hyt).isUser] at h2
        rw [(hold y hyt).cr3] at heq
        exact h.distinct x hx y hy h1 h2 heq

end Frames

/-! ### Frames that nothing gives back -/

/-- Frame `f` is marked, no task has its stack there, and it is neither the heap's nor a directory
or table. -/
structure Stranded (k : Kernel) (ρ : Ledger ℕ Use) (f : ℕ) : Prop where
  used : ¬ Pmm.Free k.machine.pages f
  page : ∀ u, ρ f = some u → ∃ d, u = .page d
  stack : ∀ t ∈ k.alive, (k.tasks t).isUser = true → frameOf (k.tasks t).userStackBottom ≠ f

namespace Stranded

variable {f : ℕ}

/-- Its entry stays while others are made. -/
theorem entry (h : Stranded k ρ f) (hg : Gains k.machine ρ k'.machine ρ') :
    ¬ Pmm.Free k'.machine.pages f ∧ ∀ u, ρ' f = some u → ∃ d, u = .page d := by
  refine ⟨fun hf => h.used (hg.free hf), fun u hu => ?_⟩
  obtain he | ⟨hf, -⟩ := hg.entry f
  · exact h.page u (he ▸ hu)
  · exact absurd hf h.used

theorem gains (h : Stranded k ρ f) (hp : Persists k k')
    (hg : Gains k.machine ρ k'.machine ρ') : Stranded k' ρ' f := by
  obtain ⟨hused, hpage⟩ := h.entry hg
  refine ⟨hused, hpage, fun t ht hu => ?_⟩
  rw [(hp.tasks t).isUser] at hu
  rw [(hp.tasks t).userStackBottom]
  exact h.stack t (hp.alive.subset ht) hu

/-- The stack of a new task was free. -/
theorem created (h : Stranded k ρ f) {t : ℕ} (hcr : Created k k' t)
    (hg : Gains k.machine ρ k'.machine ρ')
    (hstack : (k'.tasks t).isUser = true →
      frameOf (k'.tasks t).userStackBottom ∈ freeFrames k.machine) : Stranded k' ρ' f := by
  obtain ⟨hused, hpage⟩ := h.entry hg
  refine ⟨hused, hpage, fun x hx hu => ?_⟩
  by_cases hxt : x = t
  · subst hxt
    intro he
    exact h.used (he ▸ hstack hu)
  · rw [hcr.alive] at hx
    rw [hcr.old hxt] at hu ⊢
    exact h.stack x (List.mem_of_ne_of_mem hxt hx) hu

end Stranded

/-! ### Removal -/

/-- The directory and the stack are freed. -/
theorem Frames.remove (h : Frames img k ρ) (hn : k.alive.Nodup) {t : ℕ} (ht : t ∈ k.alive)
    (prev : ℕ) : ∃ ρ', Frames img (k.remove t prev) ρ' ∧
      ∀ f, Stranded k ρ f → Stranded (k.remove t prev) ρ' f := by
  have hp := remove_persists k t prev
  have hmem : ∀ x ∈ (k.remove t prev).alive, x ≠ t ∧ x ∈ k.alive := by
    intro x hx
    rw [remove_eq] at hx
    exact ⟨fun e => hn.not_mem_erase (e ▸ hx), List.mem_of_mem_erase hx⟩
  have hmachine : (k.remove t prev).machine = if (k.tasks t).isUser then
      (k.machine.freePage (k.tasks t).userStackBottom).freePage (k.tasks t).cr3
      else k.machine := by
    rw [remove_eq]
  cases hu : (k.tasks t).isUser with
  | false =>
      rw [hu] at hmachine
      refine ⟨ρ, h.extend hp ?_ fun _ _ e => e, fun f hf => hf.gains hp ?_⟩
      · rw [hmachine]
        exact h.layout
      · rw [hmachine]
        exact .refl ..
  | true =>
      rw [hu, if_pos rfl] at hmachine
      obtain ⟨d, f, hs⟩ := h.userSpace t ht hu
      have hdrop := h.layout.drop hs.directory
      have hfge := (h.layout.taken f _ hs.page).ge
      have hdge := (h.layout.taken d _ hs.directory).ge
      have h1 := hdrop.freePage (f := f)
        (if_pos (Or.inr (by rw [hs.page]; rfl))) hs.stack_lt hfge
      rw [hs.stack, hs.cr3] at hmachine
      refine ⟨ρ.drop fun g => g = d ∨ (ρ g).bind Use.owner = some d, h.persists hp ?_ ?_,
        fun g hg => ⟨fun hfree => ?_, fun u hu' => ?_, fun x hx hux => ?_⟩⟩
      · rw [hmachine]
        exact h1.freePage (if_pos (Or.inl rfl)) hs.directory_lt hdge
      · intro x hx d' f' hu' hs'
        obtain ⟨hne, hx⟩ := hmem x hx
        have hd : d' ≠ d := by
          rintro rfl
          exact hne (h.distinct x hx t ht hu' hu (hs'.cr3.trans hs.cr3.symm))
        refine ⟨Ledger.drop_eq_some.2 ⟨?_, hs'.directory⟩, Ledger.drop_eq_some.2 ⟨?_, hs'.page⟩⟩
        · rw [hs'.directory]
          rintro (e | e)
          · exact hd e
          · cases e
        · rw [hs'.page]
          rintro (rfl | e)
          · have hdir := hs.directory
            rw [hs'.page] at hdir
            cases hdir
          · cases e
            exact hd rfl
      · -- the frame is neither the directory nor the stack
        rw [hmachine] at hfree
        obtain hfree | rfl := (h1.pages.freePage hs.directory_lt hdge).2 g hfree
        · obtain hfree | rfl := (h.layout.pages.freePage hs.stack_lt hfge).2 g hfree
          · exact hg.used hfree
          · refine hg.stack t ht hu ?_
            rw [hs.stack]
            exact frameOf_frameAddr hs.stack_lt
        · obtain ⟨e, he⟩ := hg.page _ hs.directory
          cases he
      · exact hg.page u (Ledger.drop_eq_some.1 hu').2
      · rw [(hp.tasks x).isUser] at hux
        rw [(hp.tasks x).userStackBottom]
        exact hg.stack x (hmem x hx).2 hux

/-! ### Steps -/

/-- From `k` to `k'` the ledger is kept up, and what nothing gives back stays so. -/
def Onward (img : Image) (k k' : Kernel) : Prop := Clean k'.machine →
  Clean k.machine ∧ ∀ ρ, Frames img k ρ → ∃ ρ', Frames img k' ρ' ∧
    ∀ f, Stranded k ρ f → Stranded k' ρ' f

theorem Framed.onward (h : Framed img k) (ho : Onward img k k') : Framed img k' := by
  intro hclean
  obtain ⟨hclean', hall⟩ := ho hclean
  obtain ⟨ρ, hf⟩ := h hclean'
  obtain ⟨ρ', hf', -⟩ := hall ρ hf
  exact ⟨ρ', hf'⟩

namespace Onward

theorem refl (k : Kernel) : Onward img k k := fun hclean =>
  ⟨hclean, fun ρ hf => ⟨ρ, hf, fun _ hs => hs⟩⟩

theorem trans {k'' : Kernel} (h : Onward img k k') (h' : Onward img k' k'') :
    Onward img k k'' := by
  intro hclean
  obtain ⟨hclean', hall'⟩ := h' hclean
  obtain ⟨hclean, hall⟩ := h hclean'
  refine ⟨hclean, fun ρ hf => ?_⟩
  obtain ⟨ρ', hf', hs⟩ := hall ρ hf
  obtain ⟨ρ'', hf'', hs'⟩ := hall' ρ' hf'
  exact ⟨ρ'', hf'', fun f hstr => hs' f (hs f hstr)⟩

/-- Entries are made, and no task is new. -/
theorem gains (hp : Persists k k') (hclean : Clean k'.machine → Clean k.machine)
    (hl : Clean k'.machine → ∀ ρ, Frames img k ρ →
      ∃ ρ', Layout img k'.machine ρ' ∧ Gains k.machine ρ k'.machine ρ') : Onward img k k' := by
  refine fun hc => ⟨hclean hc, fun ρ hf => ?_⟩
  obtain ⟨ρ', hlay, hg⟩ := hl hc ρ hf
  exact ⟨ρ', hf.extend hp hlay fun f u hu => hg.of_some hf.layout.sound hu,
    fun f hs => hs.gains hp hg⟩

/-- Tasks may be removed, and other directories loaded. -/
theorem persists (hp : Persists k k') (hpages : k'.machine.pages = k.machine.pages)
    (hframes : k'.machine.frames = k.machine.frames)
    (hclean : Clean k'.machine → Clean k.machine) : Onward img k k' := by
  refine gains hp hclean fun _ ρ hf => ⟨ρ, hf.layout.of_frames hpages hframes, .shrink ?_⟩
  unfold freeFrames
  rw [hpages]

theorem killTask (hc : Consistent img k buffers l) (pid : UInt32) :
    Onward img k (k.killTask pid).2 := by
  obtain ⟨xs, t, ys, rfl, _, _, _, he⟩ | ⟨_, he⟩ := killTask_cases hc pid
  · rw [he]
    intro hclean
    have ht : t ∈ k.alive := hc.mem_iff.2 (Or.inr (by simp))
    have hclean' : Clean k.machine := by
      dsimp only at hclean
      rw [remove_eq] at hclean
      dsimp only at hclean
      split_ifs at hclean
      · exact ⟨hclean.outOfMemory, hclean.highDirectory⟩
      · exact hclean
    exact ⟨hclean', fun ρ hf => hf.remove hc.nodup ht _⟩
  · rw [he]
    exact refl k

theorem kills (hc : Consistent img k buffers l) (hk : Kills k k') : Onward img k k' :=
  hk.induction hc (fun _ _ pid hc h => h.trans (killTask hc pid)) (refl k)

theorem switchTo {prev next : ℕ} (hk : k.switchTo prev next = some k') : Onward img k k' := by
  have hp := switchTo_persists hk
  rw [switchTo_eq hk] at hp ⊢
  exact persists hp rfl rfl fun hc => ⟨hc.outOfMemory, hc.highDirectory⟩

theorem schedule (hc : Consistent img k buffers l) (hk : k.schedule = some k') :
    Onward img k k' := by
  obtain ⟨k₁, l₁, hkills, _, _, rfl | ⟨next, _, _, hs⟩⟩ := schedule_cases hk hc
  · exact kills hc hkills
  · exact (kills hc hkills).trans (switchTo hs)

theorem stop (k : Kernel) (st : TaskState) (wakeTick : UInt32) :
    Onward img k (k.stop st wakeTick) :=
  persists (stop_persists ..) rfl rfl id

theorem tick (hc : Consistent img k buffers l) : Onward img k k.taskTimerTick := by
  have hp := taskTimerTick_persists hc
  rw [taskTimerTick_eq hc] at hp ⊢
  exact persists hp rfl rfl id

end Onward

section current
variable (hctx : ContextOk k) (hc : Consistent img k buffers l)
include hctx hc

/-- The directory that is loaded is one of the tasks'. -/
theorem Framed.current_isDirectory (hf : Frames img k ρ) :
    IsDirectory img ρ (frameOf k.machine.cr3) := by
  rw [hctx.cr3]
  exact hf.isDirectory hc.current_mem

namespace Onward

theorem grows (hp : Persists k k') (hg : Grows img k.machine k'.machine) : Onward img k k' := by
  refine gains hp hg.keeps.clean fun hclean ρ hf => ?_
  obtain ⟨ρ', hl, hext⟩ := hg.layout hf.layout (Framed.current_isDirectory hctx hc hf)
    hclean.outOfMemory
  exact ⟨ρ', hl, .of_heap hext⟩

theorem aborted (hs : SameTasks k k') (ha : Aborted img k.machine k'.machine) :
    Onward img k k' :=
  gains hs.persists ha.keeps.clean fun hclean _ hf =>
    ha.layout hf.layout (Framed.current_isDirectory hctx hc hf) hclean.outOfMemory

/-- A kernel task runs in the kernel's directory. -/
theorem createdTask {t kernelStackMem : ℕ} (hcr : Created k k' t) (ht : t ∉ k.alive)
    (hh : Holds k' t kernelStackMem 0 (k.tasks img.kernelTask).cr3 false)
    (hg : Grows img k.machine k'.machine) : Onward img k k' := by
  refine fun hclean => ⟨hg.keeps.clean hclean, fun ρ hf => ?_⟩
  obtain ⟨ρ', hl, hext⟩ := hg.layout hf.layout (Framed.current_isDirectory hctx hc hf)
    hclean.outOfMemory
  have hkernel : (k'.tasks t).isUser ≠ true := by
    rw [hh.isUser]
    exact Bool.false_ne_true
  refine ⟨ρ', hf.created ht (fun e => ht (e ▸ hc.kernel)) hcr hl
    (fun f u hu => hext.of_some hf.layout.sound hu) (fun _ => ?_) fun hu => absurd hu hkernel,
    fun f hs => hs.created hcr (.of_heap hext) fun hu => absurd hu hkernel⟩
  rw [hh.cr3]
  exact hf.kernelSpace _ hc.kernel hf.kernelTask

/-- A user task gets a new directory, and maybe its program. -/
theorem createdUser {t kernelStackMem : ℕ} {stack cr3 : UInt32} (hcr : Created k k' t)
    (ht : t ∉ k.alive) (hh : Holds k' t kernelStackMem stack cr3 true) {m : Machine}
    (hs : Spawned img k.current.cr3 stack cr3 k.machine m)
    (hl : k'.machine = m ∨ ∃ size, alignedSize size ≤ HEAP_MAX_ADDR - HEAP_START ∧
      Loaded img k.current.cr3 cr3 size m k'.machine) : Onward img k k' := by
  intro hclean
  have hks := hs.keeps hctx.cr3
  have hclean' : Clean m := by
    obtain he | ⟨size, -, hl⟩ := hl
    · exact he ▸ hclean
    · exact (hl.keeps (hks.cr3.trans hctx.cr3)).clean hclean
  refine ⟨hks.clean hclean', fun ρ hf => ?_⟩
  obtain ⟨ρ₁, d, f, hd, hst, hdlt, hflt, hn⟩ := hs.newSpace hf.layout
    (Framed.current_isDirectory hctx hc hf) hctx.cr3 hclean'.outOfMemory hclean'.highDirectory
  have hnone : ρ d = none := hf.layout.sound.eq_none hn.directory_free
  obtain ⟨ρ', hlay, hg⟩ : ∃ ρ', Layout img k'.machine ρ' ∧ Gains m ρ₁ k'.machine ρ' := by
    obtain he | ⟨size, hsize, hl⟩ := hl
    · rw [he]
      exact ⟨ρ₁, hn.layout, .refl ..⟩
    · exact hl.layout hn.layout hn.directory hd hn.noCode hsize hclean.outOfMemory
  have hgain : Gains k.machine ρ k'.machine ρ' := hn.gains.trans hg
  have hkt : t ≠ img.kernelTask := fun e => ht (e ▸ hc.kernel)
  refine ⟨ρ', hf.created ht hkt hcr hlay (fun f u hu => hgain.of_some hf.layout.sound hu)
    (fun hu => ?_) fun _ => ⟨d, f, ⟨?_, ?_, hdlt, hflt, ?_, ?_⟩, hnone⟩,
    fun g hstr => hstr.created hcr hgain fun _ => ?_⟩
  · rw [hh.isUser] at hu
    cases hu
  · rw [hh.cr3, hd]
  · rw [hh.userStack, hst]
  · exact hg.of_some hn.layout.sound hn.directory
  · exact hg.of_some hn.layout.sound hn.stack
  · rw [hh.userStack, hst, frameOf_frameAddr hflt]
    exact hn.stack_free

theorem pageFault {addr : UInt32} {m : Machine}
    (hm : pageFaultHandler img k.machine addr = some m) :
    Onward img k { k with machine := m } := by
  refine gains ⟨List.Sublist.refl _, rfl, fun _ => .refl _⟩ (keeps_pageFaultHandler hm).clean
    fun _ ρ hf => ⟨ρ, hf.layout.pageFault (Framed.current_isDirectory hctx hc hf) hm, .shrink ?_⟩
  unfold freeFrames
  dsimp only
  rw [pages_pageFaultHandler hm]

end Onward

end current

end Kernel

namespace System

variable {img : Image} {s s' : System} {op : Op}

theorem onward_step {l : List ℕ} (hc : s.kernel.Consistent img s.buffers l)
    (hctx : s.kernel.ContextOk) (hs : s.step img op = some s') :
    Kernel.Onward img s.kernel s'.kernel := by
  have hheld := hc.currentHeld
  cases op with
  | createTask =>
      obtain ⟨⟨t, k⟩, hk, rfl⟩ := Option.map_eq_some_iff.1 hs
      obtain ⟨hg, ⟨_, hs, _⟩ | ⟨_, hcr, _, hh, ho⟩⟩ := Kernel.createTask_cases hk hheld hc.owns
      · exact .grows hctx hc hs.persists hg
      · exact .createdTask hctx hc hcr (hc.created hcr hh.kernelStack ho.left).1 hh hg
  | createUserTask =>
      obtain ⟨⟨t, k⟩, hk, rfl⟩ := Option.map_eq_some_iff.1 hs
      obtain ⟨_, hs, _, ha⟩ | ⟨_, hcr, _, _, _, hh, ho, hsp⟩ :=
        Kernel.createUserTask_cases hk hheld hc.owns
      · exact .aborted hctx hc hs ha
      · exact .createdUser hctx hc hcr (hc.created hcr hh.kernelStack ho.left).1 hh hsp (Or.inl rfl)
  | createUserProcess file =>
      obtain ⟨⟨t, k⟩, hk, rfl⟩ := Option.map_eq_some_iff.1 hs
      obtain ⟨_, hs, _, hg | ha⟩ | ⟨_, hcr, _, _, _, size, m, hh, ho, hsp, hsize, hl⟩ :=
        Kernel.createUserProcess_cases hk hheld hc.owns
      · exact .grows hctx hc hs.persists hg
      · exact .aborted hctx hc hs ha
      · exact .createdUser hctx hc hcr (hc.created hcr hh.kernelStack ho.left).1 hh hsp
          (Or.inr ⟨size, hsize, hl⟩)
  | killTask pid =>
      cases hs
      exact .killTask hc pid
  | exitTask =>
      obtain ⟨k, hk, rfl⟩ := Option.map_eq_some_iff.1 hs
      have hstop := @Kernel.Onward.stop img s.kernel .dead s.kernel.current.wakeTick
      exact hstop.trans (.schedule (hc.stop _ _) hk)
  | taskSleep ms =>
      obtain ⟨k, hk, rfl⟩ := Option.map_eq_some_iff.1 hs
      rw [Kernel.taskSleep_eq hc] at hk
      have hstop := @Kernel.Onward.stop img s.kernel .sleeping
        (s.kernel.timerTicks + Kernel.sleepTicks ms)
      exact hstop.trans (.schedule (hc.stop _ _) hk)
  | taskTimerTick =>
      cases hs
      exact .tick hc
  | timerHandler =>
      obtain ⟨k, hk, rfl⟩ := Option.map_eq_some_iff.1 hs
      obtain ⟨h', hp⟩ := hc.tick
      have htick : Kernel.Onward img s.kernel
          { s.kernel with timerTicks := s.kernel.timerTicks + 1 } := .persists hp rfl rfl id
      exact .trans (htick.trans (.tick h')) (.schedule h'.taskTimerTick hk)
  | schedule =>
      obtain ⟨k, hk, rfl⟩ := Option.map_eq_some_iff.1 hs
      exact .schedule hc hk
  | pageFault addr =>
      obtain ⟨m, hm, rfl⟩ := Option.map_eq_some_iff.1 hs
      exact .pageFault hctx hc hm
  | kmalloc bytes =>
      obtain ⟨⟨p, k⟩, hk, rfl⟩ := Option.map_eq_some_iff.1 hs
      obtain ⟨heap, m, rfl, hg, _⟩ := Kernel.kmalloc_cases hk hc.owns
      exact .grows hctx hc ⟨List.Sublist.refl _, rfl, fun _ => .refl _⟩ hg
  | kfree i =>
      simp only [step] at hs
      cases hi : s.buffers[i]? with
      | none =>
          rw [hi] at hs
          cases hs
          exact .refl _
      | some p =>
          rw [hi] at hs
          cases hs
          exact .persists ⟨List.Sublist.refl _, rfl, fun _ => .refl _⟩ rfl rfl id

end System

variable {img : Image} {k₀ k : Kernel} {magic : UInt32} {mbi : Pmm.MultibootInfo} {s : System}
  {ops : List Op}

/-- After `init_tasking` there are frames for the heap only. -/
theorem Kernel.framed_boot (h : k₀.boot img magic mbi = some k) : k.Framed img := by
  obtain ⟨_, m₁, m₂, halloc, hmap, hg, hbooted⟩ := Kernel.boot_cases h
  intro hclean
  have hm₂ := hg.keeps.clean hclean
  have hstart := @Layout.start img { k₀.machine with
    pages := Pmm.initPmm img.toKernelImage magic mbi
    outOfMemory := false
    highDirectory := false } (pagesInv_initPmm magic mbi)
  have hcr3 : frameOf m₂.cr3 = img.pageDirectory := by
    rw [(keeps_vmmMapPage hmap).cr3, (Keeps.of_allocPage halloc).cr3]
    exact frameOf_kernel img
  obtain ⟨ρ₁, hl₁, hext₁⟩ := layout_mapHeap hstart (Or.inl (frameOf_kernel img)) le_rfl
    (by decide) halloc hmap hm₂.outOfMemory
  obtain ⟨ρ, hl, -⟩ := hg.layout hl₁ (by rw [hcr3]; exact Or.inl rfl) hclean.outOfMemory
  have hk : ∀ t ∈ k.alive, t = img.kernelTask := by
    intro t ht
    rw [hbooted.alive, List.mem_singleton] at ht
    exact ht
  have hcur : k.tasks img.kernelTask = k.current := by
    unfold Kernel.current
    rw [hbooted.current]
  refine ⟨ρ, hl, ?_, fun t ht _ => ?_, fun t ht hu => ?_, fun t ht u hu _ _ _ => ?_⟩
  · rw [hcur]
    exact hbooted.isUser
  · rw [hk t ht, hcur]
    exact hbooted.cr3
  · rw [hk t ht, hcur, hbooted.isUser] at hu
    cases hu
  · rw [hk t ht, hk u hu]

theorem run_framed (hboot : k₀.boot img magic mbi = some k)
    (hrun : (System.start k).run img ops = some s) : s.kernel.Framed img := by
  obtain ⟨_, _, _, _, _, _, hbooted⟩ := Kernel.boot_cases hboot
  have h := System.run_induction
    (P := fun s => s.Inv img ∧ s.kernel.ContextOk ∧ s.kernel.Framed img)
    (fun _ _ _ h hs => by
      obtain ⟨hi, hctx, hframed⟩ := h
      obtain ⟨l, hc⟩ := hi.list
      exact ⟨hi.step hs, System.contextOk_step hc hctx hs,
        hframed.onward (System.onward_step hc hctx hs)⟩)
    ⟨hbooted.inv, Kernel.contextOk_boot hboot, Kernel.framed_boot hboot⟩ hrun
  exact h.2.2

/-! ### What user tasks can access -/

/-- The entry for page `j` in the table of slot `i`. -/
def pte (m : Machine) (d i j : ℕ) : UInt32 := m.frames (frameOf (m.frames d i)) j

/-- Page `j` of slot `i` of the directory in frame `d` is mapped, and user mode can access it. -/
structure UserPage (m : Machine) (d i j : ℕ) : Prop where
  slot_lt : i < 1024
  page_lt : j < 1024
  present_pde : present (m.frames d i) = true
  user_pde : user (m.frames d i) = true
  present_pte : present (pte m d i j) = true
  user_pte : user (pte m d i j) = true

namespace Kernel

/-- The directory of the kernel or of a task. -/
def HasDirectory (img : Image) (k : Kernel) (d : ℕ) : Prop :=
  d = img.pageDirectory ∨ ∃ t ∈ k.alive, d = frameOf (k.tasks t).cr3

/-- The frames that are page directories, page tables and pages of the heap. -/
inductive KernelFrame (img : Image) (k : Kernel) : ℕ → Prop
  | directory {d : ℕ} : k.HasDirectory img d → KernelFrame img k d
  | table {d i : ℕ} : k.HasDirectory img d → i < 1023 →
      present (k.machine.frames d i) = true → KernelFrame img k (frameOf (k.machine.frames d i))
  | heapPage {d i j : ℕ} : k.HasDirectory img d → IsHeapSlot i → j < 1024 →
      present (k.machine.frames d i) = true → present (pte k.machine d i j) = true →
      KernelFrame img k (frameOf (pte k.machine d i j))

/-- The task `t` can access frame `f` through one of the slots 1 to 767. -/
def UserFrame (k : Kernel) (t f : ℕ) : Prop :=
  ∃ i j, 0 < i ∧ i < 768 ∧ UserPage k.machine (frameOf (k.tasks t).cr3) i j ∧
    f = frameOf (pte k.machine (frameOf (k.tasks t).cr3) i j)

/-- User tasks share their frames neither with each other nor with the kernel, and none of them is
free. -/
structure Apart (img : Image) (k : Kernel) : Prop where
  disjoint : ∀ t ∈ k.alive, ∀ u ∈ k.alive, (k.tasks t).isUser = true →
    (k.tasks u).isUser = true → t ≠ u → ∀ f, k.UserFrame t f → ¬ k.UserFrame u f
  kernel : ∀ t ∈ k.alive, (k.tasks t).isUser = true → ∀ f, k.UserFrame t f →
    ¬ k.KernelFrame img f
  marked : ∀ t ∈ k.alive, (k.tasks t).isUser = true → ∀ f, k.UserFrame t f →
    f < k.machine.pages.totalMemoryPages.toNat ∧ k.machine.pages.memoryBitmap.test f = true

/-- Frames of the kernel image. -/
def InImage (img : Image) (f : ℕ) : Prop := 0x100 ≤ f ∧ f * 4096 < img.kernelEnd.toNat

/-- No user task can access the memory of the kernel. -/
def Protected (img : Image) (k : Kernel) : Prop :=
  ∀ t ∈ k.alive, (k.tasks t).isUser = true → ∀ i j,
    UserPage k.machine (frameOf (k.tasks t).cr3) i j →
      ¬ InImage img (frameOf (pte k.machine (frameOf (k.tasks t).cr3) i j)) ∧
      ¬ k.KernelFrame img (frameOf (pte k.machine (frameOf (k.tasks t).cr3) i j))

namespace Frames

variable {ρ : Ledger ℕ Use} {d f i j t : ℕ}

theorem isDirectory_of_has (h : Frames img k ρ) (hd : k.HasDirectory img d) :
    IsDirectory img ρ d := by
  obtain rfl | ⟨t, ht, rfl⟩ := hd
  · exact Or.inl rfl
  · exact h.isDirectory ht

/-- A frame of the kernel's is below its end, or no page of a user. -/
theorem kernelFrame_cases (h : Frames img k ρ) (hf : k.KernelFrame img f) :
    f * 4096 < img.kernelEnd.toNat ∨ ∃ u, ρ f = some u ∧ ∀ d, u ≠ .page d := by
  obtain hd | @⟨d, i, hd, hi, hp⟩ | @⟨d, i, j, hd, hi, hj, hp, hp'⟩ := hf
  · obtain rfl | hd := h.isDirectory_of_has hd
    · have := img.directory_mem.2
      exact Or.inl (by omega)
    · exact Or.inr ⟨_, hd, by simp⟩
  · have hd' := h.isDirectory_of_has hd
    obtain rfl | h0 := Nat.eq_zero_or_pos i
    · rw [(h.layout.space d hd').low, frameOf_tableEntry (by have := img.table_lt; omega)]
      have := img.table_mem.2
      exact Or.inl (by omega)
    · refine Or.inr ⟨_, h.layout.table d hd' i h0 hi hp, fun e => ?_⟩
      unfold tableUse
      split_ifs <;> simp
  · have hd' := h.isDirectory_of_has hd
    have htable := h.layout.table d hd' i (by have := hi.1; omega) (by have := hi.2; omega) hp
    have hpage := (h.layout.entry _ _ _ htable (entries_tableUse ..) j hj hp').1
    refine Or.inr ⟨_, hpage, fun e => ?_⟩
    unfold pageUse
    rw [if_neg (by have := hi.1; omega)]
    simp

/-- From 4 MB on, what a user task can access are its pages. -/
theorem userPage (h : Frames img k ρ) (ht : t ∈ k.alive) (h0 : 0 < i)
    (hp : UserPage k.machine (frameOf (k.tasks t).cr3) i j) :
    ρ (frameOf (pte k.machine (frameOf (k.tasks t).cr3) i j)) =
      some (.page (frameOf (k.tasks t).cr3)) := by
  have hd := h.isDirectory ht
  have hs := h.layout.space _ hd
  have hi : i < 1023 := by
    have := hp.slot_lt
    by_contra hge
    obtain rfl : i = 1023 := by omega
    have hu := hp.user_pde
    rw [hs.self, user_selfEntry hs.lt] at hu
    cases hu
  have htable := h.layout.table _ hd i h0 hi hp.present_pde
  obtain ⟨h1, h2⟩ := h.layout.entry _ _ _ htable (entries_tableUse ..) j hp.page_lt hp.present_pte
  unfold pageUse at h1 h2
  split_ifs at h1 h2
  · exact h1
  · have hu := hp.user_pte
    unfold pte at hu
    rw [h2 rfl] at hu
    cases hu

/-- The frame of a page of a user is the kernel's for nothing. -/
theorem not_kernel (h : Frames img k ρ) (hf : ρ f = some (.page d)) :
    ¬ InImage img f ∧ ¬ k.KernelFrame img f := by
  have hge := (h.layout.taken f _ hf).ge
  refine ⟨fun hi => ?_, fun hk => ?_⟩
  · have := hi.2
    omega
  · obtain hlt | ⟨u, hu, hne⟩ := h.kernelFrame_cases hk
    · omega
    · rw [hf] at hu
      exact hne d (Option.some.inj hu).symm

theorem apart (h : Frames img k ρ) : k.Apart img := by
  have huse : ∀ t ∈ k.alive, ∀ f, k.UserFrame t f → ρ f = some (.page (frameOf (k.tasks t).cr3)) := by
    rintro t ht f ⟨i, j, h0, -, hp, rfl⟩
    exact h.userPage ht h0 hp
  refine ⟨fun t ht u hu h1 h2 hne f hf hf' => ?_, fun t ht _ f hf => ?_, fun t ht _ f hf => ?_⟩
  · have he := huse t ht f hf
    rw [huse u hu f hf'] at he
    obtain ⟨d, g, hs⟩ := h.userSpace t ht h1
    obtain ⟨d', g', hs'⟩ := h.userSpace u hu h2
    rw [hs.frameOf_cr3, hs'.frameOf_cr3] at he
    cases he
    exact hne (h.distinct t ht u hu h1 h2 (hs.cr3.trans hs'.cr3.symm))
  · exact (h.not_kernel (huse t ht f hf)).2
  · have htaken := h.layout.taken f _ (huse t ht f hf)
    exact ⟨htaken.lt, htaken.marked⟩

/-- The first 4 MB are open to user mode. -/
theorem userPage_low (h : Frames img k ρ) (ht : t ∈ k.alive) (hj : j < 1024) :
    UserPage k.machine (frameOf (k.tasks t).cr3) 0 j ∧
      frameOf (pte k.machine (frameOf (k.tasks t).cr3) 0 j) = j := by
  have hs := h.layout.space _ (h.isDirectory ht)
  have hlt := img.table_lt
  have hpte : pte k.machine (frameOf (k.tasks t).cr3) 0 j = tableEntry j := by
    unfold pte
    rw [hs.low, frameOf_tableEntry (by omega), h.layout.low j hj]
  refine ⟨⟨by omega, hj, ?_, ?_, ?_, ?_⟩, ?_⟩
  · rw [hs.low]
    exact present_tableEntry (by omega)
  · rw [hs.low]
    exact user_tableEntry (by omega)
  · rw [hpte]
    exact present_tableEntry (by omega)
  · rw [hpte]
    exact user_tableEntry (by omega)
  · rw [hpte]
    exact frameOf_tableEntry (by omega)

/-- So the kernel is not protected from a user task. -/
theorem not_protected (h : Frames img k ρ) (ht : t ∈ k.alive) (hu : (k.tasks t).isUser = true) :
    ¬ k.Protected img := by
  intro hp
  obtain ⟨hpage, hframe⟩ := h.userPage_low ht (j := 0x100) (by omega)
  have himage := (hp t ht hu 0 0x100 hpage).1
  rw [hframe] at himage
  have hmem := img.directory_mem
  exact himage ⟨le_rfl, by omega⟩

end Frames

end Kernel

/-- **User tasks are apart**: in every state that a run from `init_tasking` on reaches without a
failed `pmm_alloc_page` and with all directories below 4 MB, the frames that a user task can
access from 4 MB up to 3 GB are marked in the bitmap, and neither another user task's nor the
kernel's. -/
theorem run_apart (hboot : k₀.boot img magic mbi = some k)
    (hrun : (System.start k).run img ops = some s)
    (ho : s.kernel.machine.outOfMemory = false) (hh : s.kernel.machine.highDirectory = false) :
    s.kernel.Apart img := by
  obtain ⟨ρ, hf⟩ := run_framed hboot hrun ⟨ho, hh⟩
  exact hf.apart

/-- Two user tasks are there. -/
theorem run_apart_twoUsers : ∃ k s t u, TwoUsers k s t u ∧ s.kernel.Apart smallImage := by
  obtain ⟨k, s, t, u, h⟩ := exists_twoUsers
  exact ⟨k, s, t, u, h, run_apart h.boot h.run h.outOfMemory h.highDirectory⟩

/-- **Where the kernel is protected**: from 4 MB on, user tasks can access nothing of the
kernel's, and it is protected exactly as long as there is no user task. -/
theorem run_protected (hboot : k₀.boot img magic mbi = some k)
    (hrun : (System.start k).run img ops = some s) :
    ((∀ t ∈ s.kernel.alive, (s.kernel.tasks t).isUser = false) → s.kernel.Protected img) ∧
    (s.kernel.machine.outOfMemory = false → s.kernel.machine.highDirectory = false →
      (s.kernel.Protected img → ∀ t ∈ s.kernel.alive, (s.kernel.tasks t).isUser = false) ∧
      ∀ t ∈ s.kernel.alive, ∀ i j, 0 < i →
        UserPage s.kernel.machine (frameOf (s.kernel.tasks t).cr3) i j →
        ¬ Kernel.InImage img (frameOf (pte s.kernel.machine (frameOf (s.kernel.tasks t).cr3) i j)) ∧
        ¬ s.kernel.KernelFrame img
          (frameOf (pte s.kernel.machine (frameOf (s.kernel.tasks t).cr3) i j))) := by
  refine ⟨fun hno t ht hu => ?_, fun ho hh => ?_⟩
  · rw [hno t ht] at hu
    cases hu
  obtain ⟨ρ, hf⟩ := run_framed hboot hrun ⟨ho, hh⟩
  refine ⟨fun hp t ht => ?_, fun t ht i j h0 hpage => hf.not_kernel (hf.userPage ht h0 hpage)⟩
  rw [← Bool.not_eq_true]
  exact fun hu => hf.not_protected ht hu hp

/-- With two user tasks, each can access the first page of the kernel. -/
theorem not_protected_twoUsers : ∃ k s t u, TwoUsers k s t u ∧ ¬ s.kernel.Protected smallImage := by
  obtain ⟨k, s, t, u, h⟩ := exists_twoUsers
  obtain ⟨ρ, hf⟩ := run_framed h.boot h.run ⟨h.outOfMemory, h.highDirectory⟩
  have ht : t ∈ s.kernel.alive := by
    rw [h.alive]
    simp
  exact ⟨k, s, t, u, h, hf.not_protected ht h.isUser.1⟩

/-- The same run for `run_protected`. -/
theorem run_protected_twoUsers : ∃ k s t u, TwoUsers k s t u ∧
    (s.kernel.Protected smallImage → ∀ t ∈ s.kernel.alive, (s.kernel.tasks t).isUser = false) := by
  obtain ⟨k, s, t, u, h⟩ := exists_twoUsers
  exact ⟨k, s, t, u, h, ((run_protected h.boot h.run).2 h.outOfMemory h.highDirectory).1⟩

end NosmeriOs.Tasks
