import NosmeriOs.TaskPrograms

/-! # What `kill_task` does not give back

`kill_task` frees the stack, the directory, the kernel stack and the task itself.  The frames of
the code stay marked, whatever happens after the creation of the process.

* `Os.Later`: what a run may come to from a state on.
* `Lifetime`: a process is created, the system runs on, and the process is killed.
* `GivenBack`: the pages outside the heap and the blocks of the heap in use are as before.
* `not_givenBack`: they never are. -/

namespace NosmeriOs.Tasks

open Bytes Vmm Vfs Heap Ledgers

/-! ### The frames of the code -/

namespace Kernel

variable {img : Image} {k k' : Kernel} {ρ ρ' : Ledger ℕ Use} {buffers l : List ℕ} {f : ℕ}

theorem Stranded.not_kernelFrame (h : Stranded k ρ f) (hf : Frames img k ρ)
    (hge : img.kernelEnd.toNat ≤ f * 4096) : ¬ k.KernelFrame img f := by
  intro hk
  obtain hlt | ⟨u, hu, hne⟩ := hf.kernelFrame_cases hk
  · omega
  · obtain ⟨d, rfl⟩ := h.page u hu
    exact hne d rfl

theorem page_of_userFrame {m : Machine} {d v : ℕ} (h : Layout img m ρ) (hd : IsDirectory img ρ d)
    (h1 : 1024 ≤ v) (h2 : v < 768 * 1024) (hf : userFrame m d v = some f) :
    ρ f = some (.page d) := by
  unfold userFrame at hf
  dsimp only at hf
  split_ifs at hf with hp
  cases hf
  simp only [Bool.and_eq_true] at hp
  have htable := h.table d hd (v / 1024) (by omega) (by omega) hp.1.1
  have hpage := (h.entry _ _ _ htable (entries_tableUse ..) _ (Nat.mod_lt v (by omega)) hp.2.1).1
  rw [hpage]
  exact congrArg some (if_pos (by omega))

/-- The frames of the code were free; they are the new task's pages, and no stack. -/
theorem stranded_programFrame (hf : Frames img k ρ) (hctx : k.ContextOk)
    (hc : Consistent img k buffers l) {file : Program} {t : ℕ}
    (h : k.createUserProcess img (some file) = some (t, k')) (ht : t ≠ 0)
    (hclean : Clean k'.machine) (hf' : Frames img k' ρ') {i : ℕ} (hi : i < pageCnt file.size) :
    programFrame img k file.size i ∈ freeFrames k.machine ∧
      Stranded k' ρ' (programFrame img k file.size i) := by
  obtain ⟨-, hpages, d, buf, k₁, k₂, hcr3, hdlt, -, -, -, hspace, hstack, hne, htakes⟩ :=
    createUserProcess_space hf hctx hc h ht hclean
  obtain ⟨he, -⟩ | ⟨-, hcr, _, _, _, _, _, hh, -⟩ :=
    createUserProcess_cases h hc.currentHeld hc.owns
  · exact absurd he ht
  have hfree := htakes.code i hi
  have hmem : t ∈ k'.alive := by
    rw [hcr.alive]
    exact List.mem_cons_self ..
  have hdir : IsDirectory img ρ' d := by
    have hd := hf'.isDirectory hmem
    rwa [hcr3, frameOf_frameAddr hdlt] at hd
  have hcp : CODE_PAGE = 0x40000 := rfl
  have hpage := page_of_userFrame hf'.layout hdir (by omega) (by omega) (hspace.code i hi)
  refine ⟨hfree, (hf'.layout.taken _ _ hpage).used, fun u hu => ?_, fun x hx hux => ?_⟩
  · rw [hpage] at hu
    exact ⟨d, (Option.some.inj hu).symm⟩
  · by_cases hxt : x = t
    · rw [hxt, hstack, frameOf_frameAddr (hf.layout.pages.isFree htakes.stack).lt]
      exact (hne i hi).symm
    · -- the stack of an older task was not free
      rw [hcr.alive] at hx
      rw [hcr.old hxt] at hux ⊢
      obtain ⟨e, g, hs⟩ := hf.userSpace x (List.mem_of_ne_of_mem hxt hx) hux
      rw [hs.stack, frameOf_frameAddr hs.stack_lt]
      exact hf.layout.sound.ne hfree hs.page

theorem kmalloc_zero {p : ℕ} (h : k.kmalloc img 0 = some (p, k')) : p = 0 := by
  have hzero : Heap.kmalloc (growHeap img) 0 k.heap (some k.machine) =
      (0, k.heap, some k.machine) := by
    unfold Heap.kmalloc growFuel kmallocFrom kmallocBody
    exact if_pos rfl
  unfold kmalloc at h
  rw [hzero] at h
  cases h
  rfl

/-- A program that has been loaded has a page of code. -/
theorem pageCnt_pos (hf : Frames img k ρ) (hctx : k.ContextOk) (hc : Consistent img k buffers l)
    {file : Program} {t : ℕ} (h : k.createUserProcess img (some file) = some (t, k'))
    (ht : t ≠ 0) (hclean : Clean k'.machine) : 0 < pageCnt file.size := by
  obtain ⟨hcnt, -, d, buf, k₁, k₂, -, -, h1, h0, -⟩ :=
    createUserProcess_space hf hctx hc h ht hclean
  have hsize : file.size.toNat ≠ 0 := by
    intro e
    rw [UInt32.toNat_inj.1 (e.trans UInt32.toNat_zero.symm)] at h1
    exact h0 (kmalloc_zero h1)
  omega

end Kernel

/-! ### Runs -/

/-- What a run may come to from the state `s` on. -/
inductive Os.Later (img : Image) (s : Os) : Os → Prop
  | refl : Later img s s
  | step {s₁ s₂ : Os} {call : Syscall} : Later img s s₁ → s₁.step img call = some s₂ →
      Later img s s₂
  | userStore {s₁ : Os} {addr : UInt32} (b : UInt8) : Later img s s₁ → 0 < pdIdx addr →
      pdIdx addr < 768 → Later img s (s₁.withKernel (s₁.system.kernel.userStore addr b))

namespace Os

variable {img : Image} {s s' : Os}

theorem Later.settled (h : Later img s s') (hs : Settled img s) :
    Settled img s' ∧ Kernel.Onward img s.system.kernel s'.system.kernel := by
  induction h with
  | refl => exact ⟨hs, .refl _⟩
  | step _ hstep ih => exact ⟨ih.1.step hstep, ih.2.trans (ih.1.steady_step hstep).onward⟩
  | userStore b _ h0 hi ih =>
      obtain ⟨l, hc⟩ := ih.1.inv.consistent
      exact ⟨ih.1.userStore b h0 hi, ih.2.trans (.userStore ih.1.context hc b h0 hi)⟩

end Os

/-- A process is created from the file under a path, the system runs on, and then the process is
killed. -/
inductive Lifetime (img : Image) (s : Os) : Kernel → Prop
  | intro {path : CStr} {file : Kernel.Program} {t : ℕ} {k₁ k₂ : Kernel} {s' : Os} :
      s.Loads path file → s.system.kernel.createUserProcess img (some file) = some (t, k₁) →
      t ≠ 0 → Os.Later img { s with system := s.system.withTask (t, k₁) } s' →
      s'.system.kernel.killTask (k₁.tasks t).id = ((k₁.tasks t).id.toInt32.toInt, k₂) →
      Lifetime img s k₂

/-- The pages that have joined the heap, and their tables, in the kernel's directory. -/
inductive HeapFrame (img : Image) (m : Machine) : ℕ → Prop
  | table {i : ℕ} : IsHeapSlot i → present (m.frames img.pageDirectory i) = true →
      HeapFrame img m (frameOf (m.frames img.pageDirectory i))
  | page {i j : ℕ} : IsHeapSlot i → j < 1024 → present (m.frames img.pageDirectory i) = true →
      present (pte m img.pageDirectory i j) = true →
      HeapFrame img m (frameOf (pte m img.pageDirectory i j))

/-- The pages outside the heap and the blocks of the heap that are in use are as before. -/
structure GivenBack (img : Image) (k k' : Kernel) : Prop where
  pages : ∀ f, ¬ HeapFrame img k'.machine f →
    (Pmm.Free k'.machine.pages f ↔ Pmm.Free k.machine.pages f)
  blocks : ∀ p, Live k'.heap p ↔ Live k.heap p

section leak
variable {img : Image} {s : Os} {k₂ : Kernel}

theorem HeapFrame.kernelFrame {k : Kernel} {f : ℕ} (h : HeapFrame img k.machine f) :
    k.KernelFrame img f := by
  obtain ⟨hi, hp⟩ | ⟨hi, hj, hp, hp'⟩ := h
  · exact .table (.inl rfl) (by have := hi.2; omega) hp
  · exact .heapPage (.inl rfl) hi hj hp hp'

/-- Each frame of the code was free, and is neither free nor the heap's in the end. -/
theorem Lifetime.leaks (h : Lifetime img s k₂) (hs : Os.Settled img s)
    (hclean : Clean k₂.machine) : ∃ f, Pmm.Free s.system.kernel.machine.pages f ∧
      ¬ Pmm.Free k₂.machine.pages f ∧ ¬ HeapFrame img k₂.machine f := by
  obtain @⟨path, file, t, k₁, _, s', hload, hcreate, ht, hlater, hkill⟩ := h
  have hstep : s.step img (.task (.createUserProcess (some file))) =
      some { s with system := s.system.withTask (t, k₁) } := by
    show Option.map _ (Option.map _ (s.system.kernel.createUserProcess img _)) = _
    rw [hcreate]
    rfl
  have hs₁ := hs.step hstep
  obtain ⟨hs', honward⟩ := hlater.settled hs₁
  obtain ⟨l', hc'⟩ := hs'.inv.consistent
  have hall : Kernel.Onward img k₁ k₂ := by
    refine honward.trans ?_
    have hk : Kernel.Onward img s'.system.kernel _ := .killTask hc' (k₁.tasks t).id
    rwa [hkill] at hk
  obtain ⟨hclean₁, hall⟩ := hall hclean
  obtain ⟨l, hc⟩ := hs.inv.consistent
  have hclean₀ := Kernel.clean_createUserProcess hs.context hc hcreate ht hclean₁
  obtain ⟨ρ, hf⟩ := hs.framed hclean₀
  obtain ⟨ρ₁, hf₁⟩ := hs₁.framed hclean₁
  have hpos := Kernel.pageCnt_pos hf hs.context hc hcreate ht hclean₁
  obtain ⟨hfree, hstr⟩ :=
    Kernel.stranded_programFrame hf hs.context hc hcreate ht hclean₁ hf₁ hpos
  obtain ⟨ρ₂, hf₂, hstranded⟩ := hall ρ₁ hf₁
  have hstr₂ := hstranded _ hstr
  have hge := (hf.layout.pages.isFree hfree).ge
  exact ⟨_, hfree, hstr₂.used, fun hh => hstr₂.not_kernelFrame hf₂ hge hh.kernelFrame⟩

theorem Lifetime.not_givenBack (h : Lifetime img s k₂) (hs : Os.Settled img s)
    (hclean : Clean k₂.machine) : ¬ GivenBack img s.system.kernel k₂ := by
  intro hback
  obtain ⟨f, hfree, hused, hheap⟩ := h.leaks hs hclean
  exact hused ((hback.pages f hheap).2 hfree)

/-- **Killing a process does not give everything back**, in no state that is reached, for no file
and whatever the system does in between, as long as no allocation of a page fails. -/
theorem reached_not_givenBack (hs : Os.Reached img s) (h : Lifetime img s k₂)
    (hclean : Clean k₂.machine) : ¬ GivenBack img s.system.kernel k₂ :=
  h.not_givenBack hs.settled hclean

end leak

/-! ### A file of two bytes -/

theorem Kernel.clean_remove {k : Kernel} {t prev : ℕ} (h : Clean k.machine) :
    Clean (k.remove t prev).machine := by
  rw [remove_eq]
  dsimp only
  split_ifs
  · exact ⟨h.outOfMemory, h.highDirectory⟩
  · exact h

/-- The file is loaded after the start, and the process killed at once. -/
theorem exists_lifetime : ∃ s k₂, Os.Reached smallImage s ∧ Lifetime smallImage s k₂ ∧
    Clean k₂.machine := by
  obtain ⟨k, hboot, hcalm⟩ := @Kernel.boot_of_open smallImage rootedKernel 512 16384 _ _
    (fun _ hp ho hh => open_initVmm hp ho hh) (by omega)
  have hs := Os.Reached.boot twoBytes.fs hboot
  obtain ⟨_, _, _, _, _, _, hbooted⟩ := Kernel.boot_cases hboot
  obtain ⟨⟨l, hc⟩, hctx, hframed⟩ := hs.settled
  obtain ⟨ρ, hframes⟩ := hframed hcalm.machine.clean
  obtain ⟨file, hloads, hsize, hdata⟩ := (regularFile_twoBytes hboot).loads
  have hsize' : file.size = 2 := hsize
  obtain ⟨⟨t, k'⟩, hk, ht, hclean, -⟩ := Kernel.createUserProcess_of_calm hcalm hframes hctx hc
    file (by rw [hsize']; decide) (by rw [hsize']; decide) (by rw [hsize']; decide) (by omega)
    (by omega)
  dsimp only [Os.start, System.start] at hk ht hclean hc
  obtain ⟨he, -⟩ | ⟨-, hcr, -⟩ := Kernel.createUserProcess_cases hk hc.currentHeld hc.owns
  · exact absurd he ht
  have hid : (k'.tasks t).id = 1 := hcr.id.trans hbooted.nextPid
  have hnext : k'.current.next = t := by
    unfold Kernel.current
    rw [hcr.currentTask, hcr.current]
  have hcur : k'.currentTask ≠ 0 := by
    rw [hcr.currentTask]
    exact hc.current_ne_zero
  have hkill := Kernel.killTask_next hcur (by rw [hid]; decide) hcr.alive hnext rfl
  exact ⟨_, _, hs, .intro hloads hk ht .refl hkill, Kernel.clean_remove hclean⟩

theorem reached_not_givenBack_first : ∃ s k₂, Os.Reached smallImage s ∧
    Lifetime smallImage s k₂ ∧ ¬ GivenBack smallImage s.system.kernel k₂ := by
  obtain ⟨s, k₂, hs, hlife, hclean⟩ := exists_lifetime
  exact ⟨s, k₂, hs, hlife, reached_not_givenBack hs hlife hclean⟩

/-- Not every process gives back what it took. -/
theorem not_forall_givenBack : ¬ ∀ s k₂, Os.Reached smallImage s → Lifetime smallImage s k₂ →
    GivenBack smallImage s.system.kernel k₂ := by
  intro hall
  obtain ⟨s, k₂, hs, hlife, hclean⟩ := exists_lifetime
  exact hlife.not_givenBack hs.settled hclean (hall s k₂ hs hlife)

end NosmeriOs.Tasks
