import NosmeriOs.HeapTables
import NosmeriOs.TaskExhausted

/-! # Creation without memory

`create_user_process` asks for memory at about ten places.  It checks the buffer, the kernel stack,
the page of the user stack and the `Task`, and gives back what it has when one of these is missing.

* `NoFailure`: no call for memory returns `0`.
* `FailsCleanly`: the call returns `0`, and nothing is left of it but a larger heap.
* `CheckedFailure`: one of the checked calls fails, and no table of the heap was put over frame 0.
* `failsCleanly_iff`: it is only then that the call fails cleanly. -/

namespace NosmeriOs.Tasks

open Vmm Vfs Heap Ledgers

namespace Kernel

/-! ### Calls for memory -/

/-- If the call returns, then a pointer, and `pmm_alloc_page` has not returned `0` so far. -/
def Granted (r : Option (ℕ × Kernel)) (Q : ℕ → Kernel → Prop) : Prop :=
  Ensures r fun a => a.1 ≠ 0 ∧ a.2.machine.outOfMemory = false ∧ Q a.1 a.2

/-- No call of `kmalloc`, `pmm_alloc_page` or `vmm_create_page_directory` returns `0` in
`create_user_process`. -/
def NoFailure (img : Image) (k : Kernel) (file : Program) : Prop :=
  Granted (k.kmalloc img file.size) fun _ k =>
  Granted (k.kmalloc img TASK_STACK_SIZE) fun kernelStackMem k =>
  k.machine.allocPage.1 ≠ 0 ∧
  Granted ({ k with machine := k.machine.allocPage.2 }.kmalloc img TASK_SIZE) fun newTask k' =>
  Ensures (vmmCreatePageDirectory img k'.machine) fun d =>
  d.1 ≠ 0 ∧
  Ensures (vmmMapPage img { d.2 with cr3 := d.1 } USER_STACK_BOTTOM k.machine.allocPage.1
    (PAGE_USER ||| PAGE_RW ||| PAGE_PRESENT)) fun m =>
  m.outOfMemory = false ∧
  Ensures ({ k' with machine := { m with cr3 := k'.current.cr3 } }.addTask img newTask
    kernelStackMem k.machine.allocPage.1 d.1 true) fun k =>
  k.machine.outOfMemory = false ∧ (∀ fd < 3, (k.tasks newTask).fdTable fd ≠ 0) ∧
  ∀ n ≤ pageCnt file.size, Ensures (mapCode img { k.machine with cr3 := d.1 } n) fun m =>
    m.outOfMemory = false

/-- The calls of `kmalloc` that are checked: the kernel in which they are made, and the size. -/
inductive CheckedCall (img : Image) (k : Kernel) (file : Program) : Kernel → UInt32 → Prop
  | buffer : CheckedCall img k file k file.size
  | stack {buf : ℕ} {k₁ : Kernel} : k.kmalloc img file.size = some (buf, k₁) → buf ≠ 0 →
      CheckedCall img k file k₁ TASK_STACK_SIZE
  | task {buf stack : ℕ} {k₁ k₂ : Kernel} : k.kmalloc img file.size = some (buf, k₁) → buf ≠ 0 →
      k₁.kmalloc img TASK_STACK_SIZE = some (stack, k₂) → stack ≠ 0 →
      k₂.machine.allocPage.1 ≠ 0 →
      CheckedCall img k file { k₂ with machine := k₂.machine.allocPage.2 } TASK_SIZE

/-- A call for memory fails that is checked, and `vmm_map_page` has found a page for each table
that the heap needed. -/
structure CheckedFailure (img : Image) (k : Kernel) (file : Program) : Prop where
  tables : ∀ k₁ bytes, CheckedCall img k file k₁ bytes → TablesFound k₁.heap k₁.machine bytes
  fails : (∃ k₁ bytes k₂, CheckedCall img k file k₁ bytes ∧
      k₁.kmalloc img bytes = some (0, k₂)) ∨
    ∃ buf k₁ stack k₂, k.kmalloc img file.size = some (buf, k₁) ∧ buf ≠ 0 ∧
      k₁.kmalloc img TASK_STACK_SIZE = some (stack, k₂) ∧ k₂.machine.allocPage.1 = 0

/-- The frame was taken on the way from `k` to `k'`. -/
def Takes (k k' : Kernel) (f : ℕ) : Prop :=
  Pmm.Free k.machine.pages f ∧ ¬ Pmm.Free k'.machine.pages f

/-- The frames by which the heap has grown. -/
def HeapTakes (img : Image) (k : Kernel) (file : Program) (f : ℕ) : Prop :=
  ∃ k₁ bytes p k₂, CheckedCall img k file k₁ bytes ∧ k₁.kmalloc img bytes = some (p, k₂) ∧
    Takes k₁ k₂ f

/-- The tasks, `cr3` and the blocks are as before, and so is the bitmap but for the frames of the
heap; frame 0 has not been written to or mapped in the space of a task. -/
structure Undone (img : Image) (k : Kernel) (file : Program) (k' : Kernel) : Prop where
  tasks : SameTasks k k'
  cr3 : k'.machine.cr3 = k.machine.cr3
  pages : ∀ f, Pmm.Free k'.machine.pages f ↔
    Pmm.Free k.machine.pages f ∧ ¬ HeapTakes img k file f
  blocks : ∀ p, Live k'.heap p ↔ Live k.heap p
  written : k'.machine.frames 0 = k.machine.frames 0
  mapped : ∀ t ∈ k.alive, ∀ addr,
    ({ k'.machine with cr3 := (k.tasks t).cr3 } : Machine).translate addr = some 0 →
    ({ k.machine with cr3 := (k.tasks t).cr3 } : Machine).translate addr = some 0

/-- `create_user_process` returns `0` and leaves nothing behind. -/
def FailsCleanly (img : Image) (k : Kernel) (file : Program) : Prop :=
  ∃ k', k.createUserProcess img (some file) = some (0, k') ∧ Undone img k file k'

end Kernel

/-! ### Frame 0 -/

section zero
variable {img : Image} {m m' : Machine} {ρ ρ' : Ledger ℕ Use} {d f : ℕ} {u : Use}

theorem ne_zero_of_taken (h : Layout img m ρ) (hf : ρ f = some u) : f ≠ 0 := by
  have h1 := (h.taken f u hf).ge
  have h2 := img.ge
  omega

/-- In the space of a directory only page 0 is frame 0. -/
theorem translate_eq_zero_iff (h : Layout img m ρ) (hd : IsDirectory img ρ (frameOf m.cr3))
    (addr : UInt32) : m.translate addr = some 0 ↔ pdIdx addr = 0 ∧ ptIdx addr = 0 := by
  have hs := h.space _ hd
  have htable := img.table_mem.1
  have hlt := img.table_lt
  have hj := ptIdx_lt addr
  have hi : pdIdx addr < 1024 := by
    unfold pdIdx
    have := addr.toNat_lt
    omega
  have hslot : ∀ i < 1023, present (m.pde i) = true → frameOf (m.pde i) ≠ 0 := by
    intro i hi hp
    by_cases h0 : i = 0
    · subst h0
      rw [show m.pde 0 = tableEntry img.firstPageTable from hs.low, frameOf_tableEntry (by omega)]
      omega
    · exact ne_zero_of_taken h (h.table _ hd i (by omega) hi hp)
  unfold Machine.translate
  dsimp only
  by_cases h0 : pdIdx addr = 0
  · rw [h0, show m.pde 0 = tableEntry img.firstPageTable from hs.low,
      if_pos (present_tableEntry (by omega)), frameOf_tableEntry (by omega), h.low _ hj,
      if_pos (present_tableEntry (by omega)), frameOf_tableEntry (by omega)]
    simp
  · refine iff_of_false (fun he => ?_) fun he => h0 he.1
    split_ifs at he with hp hp'
    have hzero := Option.some.inj he
    by_cases hself : pdIdx addr = 1023
    · -- the directory is its own table
      rw [hself, show m.pde 1023 = selfEntry (frameOf m.cr3) from hs.self,
        frameOf_selfEntry hs.lt] at hp' hzero
      by_cases hlast : ptIdx addr = 1023
      · rw [hlast, hs.self, frameOf_selfEntry hs.lt] at hzero
        exact h.directory_ne_zero hd hzero
      · exact hslot _ (by omega) hp' hzero
    · have ht := h.table _ hd _ (by omega) (by omega) hp
      exact ne_zero_of_taken h (h.entry _ _ _ ht (entries_tableUse ..) _ hj hp').1 hzero

/-- `vmm_map_page` does not write to frame 0, if there is a page for the table. -/
theorem mapPage_zero (h : Layout img m ρ) (hd : IsDirectory img ρ (frameOf m.cr3))
    {virtAddr physAddr flags : UInt32} (h0 : 0 < pdIdx virtAddr) (hi : pdIdx virtAddr < 1023)
    (hm : vmmMapPage img m virtAddr physAddr flags = some m') (ho : m'.outOfMemory = false) :
    m'.frames 0 = m.frames 0 := by
  have hd0 := h.directory_ne_zero hd
  have hk0 : img.pageDirectory ≠ 0 := h.directory_ne_zero (Or.inl rfl)
  funext j
  obtain ⟨hp, rfl⟩ | ⟨-, g, hg, -, hframes⟩ := h.mapPage_cases hd hm ho
  · have ht := ne_zero_of_taken h (h.table _ hd _ h0 hi hp)
    exact (Machine.frames_setWord ..).trans (if_neg fun e => ht e.1.symm)
  · rw [hframes, if_neg hg.ne_zero.symm, if_neg]
    rintro ⟨-, he | ⟨-, he⟩⟩
    · exact hd0 he.symm
    · exact hk0 he.symm

/-- Frames have been taken, and frame 0 has been left alone. -/
structure Quiet (img : Image) (m : Machine) (ρ : Ledger ℕ Use) (m' : Machine) (ρ' : Ledger ℕ Use) :
    Prop where
  layout : Layout img m' ρ'
  entry : ∀ f u, ρ f = some u → ρ' f = some u
  free : freeFrames m' ⊆ freeFrames m
  zero : m'.frames 0 = m.frames 0
  cr3 : m'.cr3 = m.cr3

theorem Quiet.isDirectory (h : Quiet img m ρ m' ρ') (hd : IsDirectory img ρ d) :
    IsDirectory img ρ' d :=
  hd.imp_right (h.entry _ _)

theorem Quiet.trans {m'' : Machine} {ρ'' : Ledger ℕ Use} (h₁ : Quiet img m ρ m' ρ')
    (h₂ : Quiet img m' ρ' m'' ρ'') : Quiet img m ρ m'' ρ'' :=
  ⟨h₂.layout, fun f u hf => h₂.entry f u (h₁.entry f u hf), h₂.free.trans h₁.free,
    h₂.zero.trans h₁.zero, h₂.cr3.trans h₁.cr3⟩

theorem Grows.quiet (hg : Grows img m m') (h : Layout img m ρ)
    (hd : IsDirectory img ρ (frameOf m.cr3)) (ho : m'.outOfMemory = false) :
    ∃ ρ', Quiet img m ρ m' ρ' := by
  induction hg with
  | refl => exact ⟨ρ, h, fun _ _ hu => hu, subset_rfl, rfl, rfl⟩
  | @tail m₁ m' hg₁ hstep ih =>
      obtain ⟨addr, h1, h2, hgrow⟩ := hstep
      obtain ⟨hlo, hhi⟩ := toNat_heapAddr h1 h2
      obtain he | ⟨p, m₂, -, ha, hm⟩ := growHeap_cases hgrow
      · obtain ⟨ρ₁, hq⟩ := ih ((Keeps.of_allocPage he).outOfMemory ho)
        obtain ⟨f, hf, -, hfree, -⟩ := hq.layout.alloc he ho
        exact absurd ((frameAddr_eq_zero hfree.lt).1 hf.symm) hfree.ne_zero
      · have ho₂ := (keeps_vmmMapPage hm).outOfMemory ho
        have hka := Keeps.of_allocPage ha
        obtain ⟨ρ₁, hq⟩ := ih (hka.outOfMemory ho₂)
        have hd₁ : IsDirectory img ρ₁ (frameOf m₁.cr3) := by
          rw [hq.cr3]
          exact hq.isDirectory hd
        obtain ⟨ρ', hl, hext⟩ := layout_mapHeap hq.layout hd₁ h1 h2 ha hm ho
        obtain ⟨f, -, hm₂, -, -, -, hl₂, -⟩ := hq.layout.alloc ha ho₂
        have hd₂ : IsDirectory img ρ₁ (frameOf m₂.cr3) := by
          rw [hka.cr3]
          exact hd₁
        have hzero := mapPage_zero hl₂ hd₂ (by omega) (by omega) hm ho
        rw [hm₂] at hzero
        exact ⟨ρ', hq.trans ⟨hl, fun _ _ hu => hext.of_some hq.layout.sound hu, hext.free, hzero,
          (keeps_vmmMapPage hm).cr3.trans hka.cr3⟩⟩

/-- A page is taken and not used yet. -/
theorem quiet_reserve (h : Layout img m ρ) (h0 : m.allocPage.1 ≠ 0) (ho : m.outOfMemory = false) :
    ∃ g, m.allocPage = (frameAddr g, m.take g) ∧ g < 2 ^ 20 ∧ Pmm.Free m.pages g ∧
      Quiet img m ρ (m.take g) (ρ.give g .reserved) := by
  obtain he | ⟨g, hg, he⟩ := allocPage_cases h.pages
  · rw [he] at h0
    exact absurd rfl h0
  obtain ⟨g', hp, hlt, -, hl, hext⟩ := h.allocPage (u := .reserved) he ho rfl (by simp)
    fun d hd => by cases hd
  obtain rfl : g = g' := by
    have := congrArg frameOf hp
    rwa [frameOf_frameAddr hg.lt, frameOf_frameAddr hlt] at this
  exact ⟨g, he, hlt, hg.free, hl, fun _ _ hu => hext.of_some h.sound hu, hext.free, rfl, rfl⟩

end zero

namespace Kernel

variable {img : Image} {k k' k₁ k₂ k₃ : Kernel} {ρ : Ledger ℕ Use} {file : Program}
  {buffers l : List ℕ} {bytes : UInt32} {buf stack p f : ℕ}

/-! ### Calls of `kmalloc` -/

/-- A call that finds its tables leaves frame 0 alone. -/
theorem kmalloc_quiet (h : Layout img k.machine ρ) (hd : IsDirectory img ρ (frameOf k.machine.cr3))
    (ho : k.machine.outOfMemory = false) (hown : Owns k.heap [])
    (ht : TablesFound k.heap k.machine bytes) (hk : k.kmalloc img bytes = some (p, k')) :
    (∃ ρ', Quiet img k.machine ρ k'.machine ρ') ∧ (p ≠ 0 → k'.machine.outOfMemory = false) := by
  obtain ⟨m, hg, ho', hm⟩ := kmalloc_found ⟨workable_of_layout h hd, hown⟩ ht hk
  rw [ho] at ho'
  obtain ⟨ρ', hq⟩ := hg.quiet h hd ho'
  obtain rfl | ⟨hp, hm⟩ := hm
  · exact ⟨⟨ρ', hq⟩, fun _ => ho'⟩
  · rw [hm]
    exact ⟨⟨ρ', hq.layout.of_frames rfl rfl, hq.entry, hq.free, hq.zero, hq.cr3⟩,
      fun hne => absurd hp hne⟩

/-- What a call that has succeeded leaves for the next one. -/
structure Kept (img : Image) (k : Kernel) (ρ : Ledger ℕ Use) (k' : Kernel) (ρ' : Ledger ℕ Use) :
    Prop where
  quiet : Quiet img k.machine ρ k'.machine ρ'
  isDirectory : IsDirectory img ρ' (frameOf k'.machine.cr3)
  outOfMemory : k'.machine.outOfMemory = false
  owns : Owns k'.heap []

theorem SameTasks.trans (h : SameTasks k k₁) (h' : SameTasks k₁ k₂) : SameTasks k k₂ :=
  ⟨h'.tasks.trans h.tasks, h'.alive.trans h.alive, h'.nextPid.trans h.nextPid,
    h'.currentTask.trans h.currentTask, h'.esp0.trans h.esp0, h'.timerTicks.trans h.timerTicks⟩

/-- The blocks and the machine may differ. -/
theorem sameTasks_with (k : Kernel) (heap : Heap.State) (m : Machine) :
    SameTasks k { k with heap := heap, machine := m } :=
  ⟨rfl, rfl, rfl, rfl, rfl, rfl⟩

theorem kmalloc_sameTasks (hown : Owns k.heap []) (hk : k.kmalloc img bytes = some (p, k')) :
    SameTasks k k' := by
  obtain ⟨heap, machine, rfl, -⟩ := kmalloc_cases hk hown
  exact sameTasks_with k heap machine

theorem kmalloc_kept (h : Layout img k.machine ρ) (hd : IsDirectory img ρ (frameOf k.machine.cr3))
    (ho : k.machine.outOfMemory = false) (hown : Owns k.heap [])
    (ht : TablesFound k.heap k.machine bytes) (hk : k.kmalloc img bytes = some (p, k'))
    (hp : p ≠ 0) : ∃ ρ', Kept img k ρ k' ρ' := by
  obtain ⟨⟨ρ', hq⟩, ho'⟩ := kmalloc_quiet h hd ho hown ht hk
  obtain ⟨heap, machine, rfl, -, hown'⟩ := kmalloc_cases hk hown
  refine ⟨ρ', hq, ?_, ho' hp, hown'.elim (fun h => h.2) fun h => owns_nil h.2.2⟩
  rw [hq.cr3]
  exact hq.isDirectory hd

theorem free_iff_takes {ρ' : Ledger ℕ Use} (h : Quiet img k.machine ρ k'.machine ρ') :
    Pmm.Free k'.machine.pages f ↔ Pmm.Free k.machine.pages f ∧ ¬ Takes k k' f := by
  have hmono : Pmm.Free k'.machine.pages f → Pmm.Free k.machine.pages f := fun hf => h.free hf
  unfold Takes
  tauto

/-- The page `g` is taken, the heap takes others, and then `g` is given back. -/
theorem free_freed_iff {m m' : Machine} {g : ℕ} (hlt : g < 2 ^ 20) (hg : Pmm.Free m.pages g)
    (htotal : g < m'.pages.totalMemoryPages.toNat) (hsub : freeFrames m' ⊆ freeFrames (m.take g))
    (f : ℕ) : Pmm.Free (m'.freePage (frameAddr g)).pages f ↔ Pmm.Free m.pages f ∧
      ¬ (Pmm.Free (m.take g).pages f ∧ ¬ Pmm.Free m'.pages f) := by
  have hmono : Pmm.Free m'.pages f → Pmm.Free (m.take g).pages f := fun h => hsub h
  rw [Machine.free_take hlt] at hmono
  rw [free_freePage hlt, Machine.free_take hlt]
  by_cases hfg : f = g
  · subst hfg
    exact iff_of_true (Or.inr ⟨rfl, htotal⟩) ⟨hg, fun h => h.1.2 rfl⟩
  · tauto

/-- The block is given back. -/
theorem live_kfree_iff {h h' : Heap.State} (hlive : ∀ q, Live h' q ↔ q = p ∨ Live h q)
    (hp : ¬ Live h p) (q : ℕ) : Live (Heap.kfree h' p) q ↔ Live h q := by
  rw [live_kfree ((hlive p).2 (Or.inl rfl)), hlive]
  constructor
  · rintro ⟨hne, rfl | hq⟩
    · exact absurd rfl hne
    · exact hq
  · intro hq
    refine ⟨?_, Or.inr hq⟩
    rintro rfl
    exact hp hq

theorem createUserProcess_of_buffer (h1 : k.kmalloc img file.size = some (0, k₁)) :
    k.createUserProcess img (some file) = some (0, k₁) := by
  unfold createUserProcess
  dsimp only
  rw [h1]
  rfl

theorem createUserProcess_of_createUserTask (h1 : k.kmalloc img file.size = some (buf, k₁))
    (hbuf : buf ≠ 0) (h2 : k₁.createUserTask img = some (0, k₂)) :
    k.createUserProcess img (some file) = some (0, k₂.kfree buf) := by
  unfold createUserProcess
  dsimp only
  rw [h1, Option.bind_eq_bind, Option.bind_some]
  dsimp only
  rw [if_neg hbuf, h2]
  rfl

/-! ### The calls that are made -/

namespace CheckedCall

/-- There is no buffer. -/
theorem of_buffer (hcall : CheckedCall img k file k' bytes)
    (h1 : k.kmalloc img file.size = some (0, k₁)) : k' = k ∧ bytes = file.size := by
  cases hcall with
  | buffer => exact ⟨rfl, rfl⟩
  | stack h1' hbuf =>
      cases h1.symm.trans h1'
      exact absurd rfl hbuf
  | task h1' hbuf =>
      cases h1.symm.trans h1'
      exact absurd rfl hbuf

/-- There is no kernel stack, or no page for the user stack. -/
theorem of_stack (hcall : CheckedCall img k file k' bytes)
    (h1 : k.kmalloc img file.size = some (buf, k₁))
    (h2 : k₁.kmalloc img TASK_STACK_SIZE = some (stack, k₂))
    (hstop : stack = 0 ∨ k₂.machine.allocPage.1 = 0) :
    k' = k ∧ bytes = file.size ∨ k' = k₁ ∧ bytes = TASK_STACK_SIZE := by
  cases hcall with
  | buffer => exact Or.inl ⟨rfl, rfl⟩
  | stack h1' =>
      cases h1.symm.trans h1'
      exact Or.inr ⟨rfl, rfl⟩
  | task h1' _ h2' hstack hpage =>
      cases h1.symm.trans h1'
      cases h2.symm.trans h2'
      exact absurd hstop (not_or.2 ⟨hstack, hpage⟩)

theorem cases (hcall : CheckedCall img k file k' bytes)
    (h1 : k.kmalloc img file.size = some (buf, k₁))
    (h2 : k₁.kmalloc img TASK_STACK_SIZE = some (stack, k₂)) :
    k' = k ∧ bytes = file.size ∨ k' = k₁ ∧ bytes = TASK_STACK_SIZE ∨
      k' = { k₂ with machine := k₂.machine.allocPage.2 } ∧ bytes = TASK_SIZE := by
  cases hcall with
  | buffer => exact Or.inl ⟨rfl, rfl⟩
  | stack h1' =>
      cases h1.symm.trans h1'
      exact Or.inr (Or.inl ⟨rfl, rfl⟩)
  | task h1' _ h2' =>
      cases h1.symm.trans h1'
      cases h2.symm.trans h2'
      exact Or.inr (Or.inr ⟨rfl, rfl⟩)

end CheckedCall

/-! ### The frames of the heap -/

theorem heapTakes_of_buffer (h1 : k.kmalloc img file.size = some (0, k₁)) :
    HeapTakes img k file f ↔ Takes k k₁ f := by
  constructor
  · rintro ⟨_, _, _, _, hcall, hk, htakes⟩
    obtain ⟨rfl, rfl⟩ := hcall.of_buffer h1
    cases h1.symm.trans hk
    exact htakes
  · exact fun htakes => ⟨_, _, _, _, .buffer, h1, htakes⟩

theorem heapTakes_of_stack (h1 : k.kmalloc img file.size = some (buf, k₁)) (hbuf : buf ≠ 0)
    (h2 : k₁.kmalloc img TASK_STACK_SIZE = some (stack, k₂))
    (hstop : stack = 0 ∨ k₂.machine.allocPage.1 = 0) :
    HeapTakes img k file f ↔ Takes k k₁ f ∨ Takes k₁ k₂ f := by
  constructor
  · rintro ⟨_, _, _, _, hcall, hk, htakes⟩
    obtain ⟨rfl, rfl⟩ | ⟨rfl, rfl⟩ := hcall.of_stack h1 h2 hstop
    · cases h1.symm.trans hk
      exact Or.inl htakes
    · cases h2.symm.trans hk
      exact Or.inr htakes
  · rintro (htakes | htakes)
    · exact ⟨_, _, _, _, .buffer, h1, htakes⟩
    · exact ⟨_, _, _, _, .stack h1 hbuf, h2, htakes⟩

theorem heapTakes_of_task (h1 : k.kmalloc img file.size = some (buf, k₁)) (hbuf : buf ≠ 0)
    (h2 : k₁.kmalloc img TASK_STACK_SIZE = some (stack, k₂)) (hstack : stack ≠ 0)
    (hpage : k₂.machine.allocPage.1 ≠ 0)
    (h3 : ({ k₂ with machine := k₂.machine.allocPage.2 } : Kernel).kmalloc img TASK_SIZE =
      some (p, k₃)) : HeapTakes img k file f ↔ Takes k k₁ f ∨ Takes k₁ k₂ f ∨
        Takes { k₂ with machine := k₂.machine.allocPage.2 } k₃ f := by
  constructor
  · rintro ⟨_, _, _, _, hcall, hk, htakes⟩
    obtain ⟨rfl, rfl⟩ | ⟨rfl, rfl⟩ | ⟨rfl, rfl⟩ := hcall.cases h1 h2
    · cases h1.symm.trans hk
      exact Or.inl htakes
    · cases h2.symm.trans hk
      exact Or.inr (Or.inl htakes)
    · cases h3.symm.trans hk
      exact Or.inr (Or.inr htakes)
  · rintro (htakes | htakes | htakes)
    · exact ⟨_, _, _, _, .buffer, h1, htakes⟩
    · exact ⟨_, _, _, _, .stack h1 hbuf, h2, htakes⟩
    · exact ⟨_, _, _, _, .task h1 hbuf h2 hstack hpage, h3, htakes⟩

/-! ### Undoing -/

/-- What is left to show of a call that has only taken frames. -/
theorem undone_of_quiet {ρ' : Ledger ℕ Use} {m : Machine} (hf : Frames img k ρ)
    (hq : Quiet img k.machine ρ m ρ') (htasks : SameTasks k k')
    (hcr3 : k'.machine.cr3 = m.cr3) (hframes : k'.machine.frames = m.frames)
    (hpages : ∀ f, Pmm.Free k'.machine.pages f ↔
      Pmm.Free k.machine.pages f ∧ ¬ HeapTakes img k file f)
    (hblocks : ∀ p, Live k'.heap p ↔ Live k.heap p) : Undone img k file k' := by
  refine ⟨htasks, hcr3.trans hq.cr3, hpages, hblocks, by rw [hframes, hq.zero],
    fun t ht addr he => ?_⟩
  have hd := hf.isDirectory ht
  have he' : ({ m with cr3 := (k.tasks t).cr3 } : Machine).translate addr = some 0 := by
    rw [← he]
    unfold Machine.translate Machine.pde
    dsimp only
    rw [hframes]
  exact (@translate_eq_zero_iff img { k.machine with cr3 := (k.tasks t).cr3 } ρ
    (hf.layout.of_frames rfl rfl) hd addr).2 ((@translate_eq_zero_iff img
      { m with cr3 := (k.tasks t).cr3 } ρ' (hq.layout.of_frames rfl rfl) (hq.isDirectory hd)
      addr).1 he')

/-- The page of the stack is asked for, and given back if there is one. -/
theorem allocPage_freePage {m : Machine} (h : PagesInv img m.pages) :
    ∀ m', m' = (if m.allocPage.1 ≠ 0 then m.allocPage.2.freePage m.allocPage.1
      else m.allocPage.2) → m'.frames = m.frames ∧ m'.cr3 = m.cr3 ∧
      ∀ g, Pmm.Free m'.pages g ↔ Pmm.Free m.pages g := by
  rintro _ rfl
  obtain he | ⟨f, hf, he⟩ := allocPage_cases h
  · rw [he, if_neg (by simp)]
    exact ⟨rfl, rfl, fun _ => Iff.rfl⟩
  · have hne : frameAddr f ≠ 0 := fun hz => hf.ne_zero ((frameAddr_eq_zero hf.lt).1 hz)
    rw [he, if_pos hne]
    refine ⟨rfl, rfl, fun g => ?_⟩
    rw [free_freePage hf.lt, Machine.free_take hf.lt, Taken.total_take]
    constructor
    · rintro (hg | ⟨rfl, -⟩)
      · exact hg.1
      · exact hf.free
    · intro hg
      by_cases hgf : g = f
      · exact Or.inr ⟨hgf, hg.1⟩
      · exact Or.inl ⟨hg, hgf⟩

/-- There is no kernel stack, or no page for the user stack. -/
theorem createUserTask_of_stack (h : k.kmalloc img TASK_STACK_SIZE = some (stack, k₁))
    (hstop : stack = 0 ∨ k₁.machine.allocPage.1 = 0) :
    ∃ k₂, k.createUserTask img = some (0, k₂) ∧ SameTasks k₁ k₂ ∧
      k₂.heap = (if stack ≠ 0 then Heap.kfree k₁.heap stack else k₁.heap) ∧
      k₂.machine = if k₁.machine.allocPage.1 ≠ 0 then
        k₁.machine.allocPage.2.freePage k₁.machine.allocPage.1 else k₁.machine.allocPage.2 := by
  unfold createUserTask
  rw [h, Option.bind_eq_bind, Option.bind_some]
  dsimp only
  rw [if_pos hstop]
  refine ⟨_, rfl, ?_, ?_, ?_⟩
  · constructor <;> split_ifs <;> rfl
  · split_ifs <;> rfl
  · split_ifs <;> rfl

/-- There is no `Task`. -/
theorem createUserTask_of_task (h : k.kmalloc img TASK_STACK_SIZE = some (stack, k₁))
    (hstack : stack ≠ 0) (hpage : k₁.machine.allocPage.1 ≠ 0)
    (h' : ({ k₁ with machine := k₁.machine.allocPage.2 } : Kernel).kmalloc img TASK_SIZE =
      some (0, k₂)) : k.createUserTask img =
        some (0, (k₂.kfree stack).freePage k₁.machine.allocPage.1) := by
  unfold createUserTask
  rw [h, Option.bind_eq_bind, Option.bind_some]
  dsimp only
  rw [if_neg (not_or.2 ⟨hstack, hpage⟩), h']
  rfl

section undone
variable (hf : Frames img k ρ) (hctx : k.ContextOk) (hc : Consistent img k buffers l)
  (hclean : Clean k.machine)

include hf hctx hc hclean

theorem undone_of_buffer (h1 : k.kmalloc img file.size = some (0, k₁))
    (ht : TablesFound k.heap k.machine file.size) : Undone img k file k₁ := by
  have hown := owns_nil hc.owns
  obtain ⟨⟨ρ₁, hq⟩, -⟩ := kmalloc_quiet hf.layout (Framed.current_isDirectory hctx hc hf)
    hclean.outOfMemory hown ht h1
  refine undone_of_quiet hf hq (kmalloc_sameTasks hown h1) rfl rfl (fun f => ?_) fun q => ?_
  · rw [heapTakes_of_buffer h1]
    exact free_iff_takes hq
  · rw [(kmalloc_live hown h1).1]
    simp

/-- The buffer is there, and then there is no kernel stack or no page for the user stack. -/
theorem failsCleanly_of_stack (h1 : k.kmalloc img file.size = some (buf, k₁)) (hbuf : buf ≠ 0)
    (ht : TablesFound k.heap k.machine file.size)
    (h2 : k₁.kmalloc img TASK_STACK_SIZE = some (stack, k₂))
    (ht' : TablesFound k₁.heap k₁.machine TASK_STACK_SIZE)
    (hstop : stack = 0 ∨ k₂.machine.allocPage.1 = 0) : FailsCleanly img k file := by
  have hown := owns_nil hc.owns
  obtain ⟨ρ₁, hk₁⟩ := kmalloc_kept hf.layout (Framed.current_isDirectory hctx hc hf)
    hclean.outOfMemory hown ht h1 hbuf
  obtain ⟨⟨ρ₂, hq₂⟩, -⟩ :=
    kmalloc_quiet hk₁.quiet.layout hk₁.isDirectory hk₁.outOfMemory hk₁.owns ht' h2
  have hlive₁ := kmalloc_live hown h1
  have hlive₂ := kmalloc_live hk₁.owns h2
  obtain ⟨k₃, h3, hsame, hheap, hmachine⟩ := createUserTask_of_stack h2 hstop
  obtain ⟨hframes, hcr3, hfree⟩ := allocPage_freePage hq₂.layout.pages _ hmachine
  have hsame₃ := ((kmalloc_sameTasks hown h1).trans (kmalloc_sameTasks hk₁.owns h2)).trans hsame
  refine ⟨_, createUserProcess_of_createUserTask h1 hbuf h3, undone_of_quiet hf
    (hk₁.quiet.trans hq₂) (hsame₃.trans (sameTasks_with ..)) hcr3 hframes (fun f => ?_) fun q => ?_⟩
  · rw [heapTakes_of_stack h1 hbuf h2 hstop, not_or, ← and_assoc, ← free_iff_takes hk₁.quiet,
      ← free_iff_takes hq₂]
    exact hfree f
  · -- first the stack is freed, then the buffer
    have hfreed : ∀ q, Live k₃.heap q ↔ Live k₁.heap q := by
      intro q
      rw [hheap]
      split_ifs with hstack
      · exact live_kfree_iff (fun q => (hlive₂.1 q).trans (by tauto)) hlive₂.2 q
      · exact (hlive₂.1 q).trans (by tauto)
    exact live_kfree_iff (fun q => (hfreed q).trans ((hlive₁.1 q).trans (by tauto))) hlive₁.2 q

/-- The page of the user stack is there as well, but no `Task`. -/
theorem failsCleanly_of_task (h1 : k.kmalloc img file.size = some (buf, k₁)) (hbuf : buf ≠ 0)
    (ht : TablesFound k.heap k.machine file.size)
    (h2 : k₁.kmalloc img TASK_STACK_SIZE = some (stack, k₂)) (hstack : stack ≠ 0)
    (ht' : TablesFound k₁.heap k₁.machine TASK_STACK_SIZE)
    (hpage : k₂.machine.allocPage.1 ≠ 0)
    (h3 : ({ k₂ with machine := k₂.machine.allocPage.2 } : Kernel).kmalloc img TASK_SIZE =
      some (0, k₃)) (ht'' : TablesFound k₂.heap k₂.machine.allocPage.2 TASK_SIZE) :
    FailsCleanly img k file := by
  have hown := owns_nil hc.owns
  obtain ⟨ρ₁, hk₁⟩ := kmalloc_kept hf.layout (Framed.current_isDirectory hctx hc hf)
    hclean.outOfMemory hown ht h1 hbuf
  obtain ⟨ρ₂, hk₂⟩ :=
    kmalloc_kept hk₁.quiet.layout hk₁.isDirectory hk₁.outOfMemory hk₁.owns ht' h2 hstack
  have hlive₁ := kmalloc_live hown h1
  have hlive₂ := kmalloc_live hk₁.owns h2
  have hstep := createUserTask_of_task h2 hstack hpage h3
  have htakes := fun f => @heapTakes_of_task img k k₁ k₂ k₃ file buf stack 0 f h1 hbuf h2 hstack
    hpage h3
  obtain ⟨g, he, hlt, hg, hq⟩ := quiet_reserve hk₂.quiet.layout hpage hk₂.outOfMemory
  rw [he] at ht'' hstep h3 htakes
  dsimp only at ht'' hstep h3 htakes
  have hd₂ : IsDirectory img (ρ₂.give g .reserved) (frameOf (k₂.machine.take g).cr3) := by
    rw [hq.cr3]
    exact hq.isDirectory hk₂.isDirectory
  obtain ⟨⟨ρ₃, hq₃⟩, -⟩ := @kmalloc_quiet img { k₂ with machine := k₂.machine.take g } k₃ _ _ _
    hq.layout hd₂ hk₂.outOfMemory hk₂.owns ht'' h3
  have hlive₃ := (kmalloc_live (k := { k₂ with machine := k₂.machine.take g }) hk₂.owns h3).1
  have htaken := hq₃.layout.taken g _ (hq₃.entry _ _ (Ledger.give_self ..))
  have hsame := @kmalloc_sameTasks img { k₂ with machine := k₂.machine.take g } _ _ _ hk₂.owns h3
  have hsame₂ := (kmalloc_sameTasks hown h1).trans (kmalloc_sameTasks hk₁.owns h2)
  refine ⟨_, createUserProcess_of_createUserTask h1 hbuf hstep, undone_of_quiet hf
    (((hk₁.quiet.trans hk₂.quiet).trans hq).trans hq₃) ?_ rfl rfl (fun f => ?_) fun q => ?_⟩
  · exact (hsame₂.trans ((sameTasks_with ..).trans hsame)).trans (sameTasks_with ..)
  · rw [htakes, not_or, not_or, ← and_assoc, ← and_assoc, ← free_iff_takes hk₁.quiet,
      ← free_iff_takes hk₂.quiet]
    exact free_freed_iff hlt hg htaken.lt hq₃.free f
  · have hfreed : ∀ q, Live (Heap.kfree k₃.heap stack) q ↔ Live k₁.heap q :=
      live_kfree_iff (fun q => (hlive₃ q).trans (by
        rw [hlive₂.1]
        tauto)) hlive₂.2
    exact live_kfree_iff (fun q => (hfreed q).trans ((hlive₁.1 q).trans (by tauto))) hlive₁.2 q

theorem CheckedFailure.failsCleanly (h : CheckedFailure img k file) : FailsCleanly img k file := by
  obtain ⟨htables, ⟨_, _, k₂, hcall, hk⟩ | ⟨buf, k₁, stack, k₂, h1, hbuf, h2, hpage⟩⟩ := h
  · cases hcall with
    | buffer =>
        exact ⟨k₂, createUserProcess_of_buffer hk,
          undone_of_buffer hf hctx hc hclean hk (htables _ _ .buffer)⟩
    | stack h1 hbuf =>
        exact failsCleanly_of_stack hf hctx hc hclean h1 hbuf (htables _ _ .buffer) hk
          (htables _ _ (.stack h1 hbuf)) (Or.inl rfl)
    | task h1 hbuf h2 hstack hpage =>
        exact failsCleanly_of_task hf hctx hc hclean h1 hbuf (htables _ _ .buffer) h2 hstack
          (htables _ _ (.stack h1 hbuf)) hpage hk (htables _ _ (.task h1 hbuf h2 hstack hpage))
  · exact failsCleanly_of_stack hf hctx hc hclean h1 hbuf (htables _ _ .buffer) h2
      (htables _ _ (.stack h1 hbuf)) (Or.inr hpage)

end undone

/-! ### A table over frame 0 -/

theorem createUserProcess_zero (h : k.createUserProcess img (some file) = some (0, k')) :
    k.kmalloc img file.size = some (0, k') ∨ ∃ buf k₁ k₂,
      k.kmalloc img file.size = some (buf, k₁) ∧ buf ≠ 0 ∧
      k₁.createUserTask img = some (0, k₂) ∧ k' = k₂.kfree buf := by
  obtain ⟨⟨buf, k₁⟩, h1, h⟩ := Option.bind_eq_some_iff.1 h
  dsimp only at h
  split_ifs at h with hbuf
  · cases h
    rw [hbuf] at h1
    exact Or.inl h1
  obtain ⟨⟨t, k₂⟩, h2, h⟩ := Option.bind_eq_some_iff.1 h
  dsimp only at h
  split_ifs at h with ht
  · cases h
    rw [ht] at h2
    exact Or.inr ⟨buf, k₁, k₂, h1, hbuf, h2, rfl⟩
  · -- otherwise the task is returned
    obtain ⟨_, -, h⟩ := Option.bind_eq_some_iff.1 h
    obtain ⟨_, -, h⟩ := Option.bind_eq_some_iff.1 h
    obtain ⟨_, -, h⟩ := Option.bind_eq_some_iff.1 h
    obtain ⟨_, -, h⟩ := Option.bind_eq_some_iff.1 h
    cases h
    exact absurd rfl ht

theorem createUserTask_zero (h : k.createUserTask img = some (0, k')) : ∃ stack k₁,
    k.kmalloc img TASK_STACK_SIZE = some (stack, k₁) ∧
    ((stack = 0 ∨ k₁.machine.allocPage.1 = 0) ∨
      stack ≠ 0 ∧ k₁.machine.allocPage.1 ≠ 0 ∧ ∃ k₂,
        ({ k₁ with machine := k₁.machine.allocPage.2 } : Kernel).kmalloc img TASK_SIZE =
          some (0, k₂) ∧ k' = (k₂.kfree stack).freePage k₁.machine.allocPage.1) := by
  obtain ⟨⟨stack, k₁⟩, h1, h⟩ := Option.bind_eq_some_iff.1 h
  refine ⟨stack, k₁, h1, ?_⟩
  dsimp only at h
  by_cases hstop : stack = 0 ∨ k₁.machine.allocPage.1 = 0
  · exact Or.inl hstop
  rw [if_neg hstop] at h
  obtain ⟨hstack, hpage⟩ := not_or.1 hstop
  obtain ⟨⟨t, k₂⟩, h2, h⟩ := Option.bind_eq_some_iff.1 h
  dsimp only at h
  split_ifs at h with ht
  · cases h
    rw [ht] at h2
    exact Or.inr ⟨hstack, hpage, k₂, h2, rfl⟩
  · obtain ⟨_, -, h⟩ := Option.bind_eq_some_iff.1 h
    obtain ⟨_, -, h⟩ := Option.bind_eq_some_iff.1 h
    cases h
    exact absurd rfl ht

/-- Nothing is undone when the directory that is loaded names frame 0 in a slot of the heap. -/
theorem not_undone_of_lost (hf : Frames img k ρ) (hctx : k.ContextOk)
    (hc : Consistent img k buffers l) {m : Machine} (hw : Workable img m)
    (hcr3 : m.cr3 = k.machine.cr3) {i : ℕ} (hi : IsHeapSlot i) (hpde : m.pde i = tableEntry 0)
    (hframes : k'.machine.frames = m.frames) : ¬ Undone img k file k' := by
  intro hu
  have hd := Framed.current_isDirectory hctx hc hf
  have hmem : k.currentTask ∈ k.alive := hc.alive.mem_iff.2 (List.mem_cons_self ..)
  have hcur : (k.tasks k.currentTask).cr3 = k.machine.cr3 := hctx.cr3.symm
  unfold IsHeapSlot at hi
  -- the page at which the table of the slot is seen
  have hv : pdIdx (UInt32.ofNat (i * 2 ^ 22)) = i := by
    unfold pdIdx
    rw [UInt32.toNat_ofNat', Nat.mod_eq_of_lt (by omega), Nat.mul_div_cancel _ (by omega)]
  have hseen : pageTable m (UInt32.ofNat (i * 2 ^ 22)) = some 0 := by
    rw [pageTable_eq hw.space.selfMapped, hv, hpde, if_pos (present_tableEntry (by omega)),
      frameOf_tableEntry (by omega)]
  have hbefore : pageTable k.machine (UInt32.ofNat (i * 2 ^ 22)) = some 0 := by
    have h := hu.mapped _ hmem (0xFFC00000 ||| UInt32.ofNat (i * 4096)) (by
      unfold pageTable at hseen
      rw [hv] at hseen
      rw [← hseen, hcur, ← hcr3]
      unfold Machine.translate Machine.pde
      dsimp only
      rw [hframes])
    unfold pageTable
    rw [hv, ← h, hcur]
  rw [pageTable_eq (hf.layout.space _ hd).selfMapped, hv] at hbefore
  split_ifs at hbefore with hp
  exact ne_zero_of_taken hf.layout (hf.layout.table _ hd i (by omega) (by omega) hp)
    (Option.some.inj hbefore)

theorem allocPage_of_empty {m : Machine} (hw : Workable img m) (h0 : available m.pages = 0) :
    m.allocPage = (0, { m with outOfMemory := true }) := by
  obtain ⟨-, he⟩ | ⟨f, -, -, hav⟩ := allocPage_available hw.pages
  · exact he
  · omega

theorem Working.allocPage (h : k.Working img) :
    ({ k with machine := k.machine.allocPage.2 } : Kernel).Working img := by
  refine ⟨?_, h.heap⟩
  obtain ⟨-, he⟩ | ⟨f, hf, he, -⟩ := allocPage_available h.machine.pages
  · rw [he]
    exact h.machine.outOfMemory
  · rw [he]
    exact h.machine.take hf

theorem Working.of_kmalloc (h : k.Working img) (hk : k.kmalloc img bytes = some (p, k')) :
    k'.Working img ∧ k'.machine.cr3 = k.machine.cr3 := by
  obtain ⟨_, he, hw⟩ := h.kmalloc bytes
  cases hk.symm.trans he
  obtain ⟨_, _, rfl, hg, -⟩ := kmalloc_cases hk h.heap
  exact ⟨hw, hg.keeps.cr3⟩

/-- When no page is left, `create_user_task` does nothing. -/
theorem createUserTask_of_empty (hw : k.Working img) (h0 : available k.machine.pages = 0)
    (h : k.createUserTask img = some (p, k')) : k'.machine.frames = k.machine.frames := by
  obtain ⟨⟨stack, k₁⟩, h1, hw₁⟩ := hw.kmalloc TASK_STACK_SIZE
  obtain ⟨hframes, hpages⟩ : k₁.machine.frames = k.machine.frames ∧
      k₁.machine.pages = k.machine.pages := by
    obtain ⟨_, machine, rfl, hg, -⟩ := kmalloc_cases h1 hw.heap
    dsimp only at hg ⊢
    obtain rfl | rfl := hg.of_empty hw.machine.pages h0 <;> exact ⟨rfl, rfl⟩
  have he := allocPage_of_empty hw₁.machine (by rw [hpages, h0])
  obtain ⟨k₂, h2, -, -, hm⟩ := createUserTask_of_stack h1 (Or.inr (congrArg Prod.fst he))
  cases h.symm.trans h2
  rw [hm, he, if_neg (by simp)]
  exact hframes

section failure
variable (hf : Frames img k ρ) (hctx : k.ContextOk) (hc : Consistent img k buffers l)

include hf hctx hc

/-- A call has put a table over frame 0, and the tables have not been changed since. -/
theorem tablesFound_of_undone (hu : Undone img k file k') (hw : k₁.Working img)
    (hcr3 : k₁.machine.cr3 = k.machine.cr3) (hk : k₁.kmalloc img bytes = some (p, k₂))
    (hframes : available k₂.machine.pages = 0 → k'.machine.frames = k₂.machine.frames) :
    TablesFound k₁.heap k₁.machine bytes := by
  by_contra ht
  obtain ⟨h0, i, hi, hpde⟩ := kmalloc_lost hw ht hk
  obtain ⟨hw₂, hcr3₂⟩ := hw.of_kmalloc hk
  exact not_undone_of_lost hf hctx hc hw₂.machine (hcr3₂.trans hcr3) hi hpde (hframes h0) hu

theorem FailsCleanly.checkedFailure (h : FailsCleanly img k file) : CheckedFailure img k file := by
  obtain ⟨k', h, hu⟩ := h
  have hw : k.Working img :=
    ⟨workable_of_layout hf.layout (Framed.current_isDirectory hctx hc hf), owns_nil hc.owns⟩
  obtain h1 | ⟨buf, k₁, k₂, h1, hbuf, h2, rfl⟩ := createUserProcess_zero h
  · have ht := tablesFound_of_undone hf hctx hc hu hw rfl h1 fun _ => rfl
    refine ⟨fun _ _ hcall => ?_, Or.inl ⟨_, _, _, .buffer, h1⟩⟩
    obtain ⟨rfl, rfl⟩ := hcall.of_buffer h1
    exact ht
  obtain ⟨hw₁, hcr3₁⟩ := hw.of_kmalloc h1
  have ht := tablesFound_of_undone hf hctx hc hu hw rfl h1 fun h0 =>
    show k₂.machine.frames = _ from createUserTask_of_empty hw₁ h0 h2
  obtain ⟨stack, k₃, h3, hrest⟩ := createUserTask_zero h2
  obtain ⟨hw₃, hcr3₃⟩ := hw₁.of_kmalloc h3
  have ht' : TablesFound k₁.heap k₁.machine TASK_STACK_SIZE := by
    refine tablesFound_of_undone hf hctx hc hu hw₁ hcr3₁ h3 fun h0 => ?_
    have he := allocPage_of_empty hw₃.machine h0
    obtain ⟨k₄, h4, -, -, hm⟩ := createUserTask_of_stack h3 (Or.inr (congrArg Prod.fst he))
    cases h2.symm.trans h4
    rw [he, if_neg (by simp)] at hm
    show k₂.machine.frames = k₃.machine.frames
    rw [hm]
  obtain hstop | ⟨hstack, hpage, k₄, h4, rfl⟩ := hrest
  · refine ⟨fun _ _ hcall => ?_, ?_⟩
    · obtain ⟨rfl, rfl⟩ | ⟨rfl, rfl⟩ := hcall.of_stack h1 h3 hstop
      · exact ht
      · exact ht'
    · obtain rfl | hpage := hstop
      · exact Or.inl ⟨_, _, _, .stack h1 hbuf, h3⟩
      · exact Or.inr ⟨_, _, _, _, h1, hbuf, h3, hpage⟩
  · have hcr3₄ : (k₃.machine.allocPage.2).cr3 = k₃.machine.cr3 := rfl
    have ht'' := tablesFound_of_undone hf hctx hc hu hw₃.allocPage
      (hcr3₄.trans (hcr3₃.trans hcr3₁)) h4 fun _ => rfl
    refine ⟨fun _ _ hcall => ?_, Or.inl ⟨_, _, _, .task h1 hbuf h3 hstack hpage, h4⟩⟩
    obtain ⟨rfl, rfl⟩ | ⟨rfl, rfl⟩ | ⟨rfl, rfl⟩ := hcall.cases h1 h3
    · exact ht
    · exact ht'
    · exact ht''

/-- The call fails cleanly when a checked call fails and every table is found, and only then. -/
theorem failsCleanly_iff (hclean : Clean k.machine) :
    FailsCleanly img k file ↔ CheckedFailure img k file :=
  ⟨fun h => h.checkedFailure hf hctx hc, fun h => h.failsCleanly hf hctx hc hclean⟩

end failure

end Kernel

/-! ### Runs -/

/-- **Creation fails cleanly only where it checks.**  In every state that is reached while no page
has been missing: a failed call for memory leaves nothing behind if and only if none fails, or one
fails that is checked and no table of the heap was missing. -/
theorem reached_failsCleanly_iff {img : Image} {s : Os} (hs : Os.Reached img s)
    (hclean : Clean s.system.kernel.machine) (file : Kernel.Program) :
    (¬ Kernel.NoFailure img s.system.kernel file →
      Kernel.FailsCleanly img s.system.kernel file) ↔
    Kernel.NoFailure img s.system.kernel file ∨
      Kernel.CheckedFailure img s.system.kernel file := by
  obtain ⟨hinv, hctx, hframed⟩ := hs.settled
  obtain ⟨l, hc⟩ := hinv.consistent
  obtain ⟨ρ, hf⟩ := hframed hclean
  rw [Kernel.failsCleanly_iff hf hctx hc hclean]
  exact or_iff_not_imp_left.symm

/-! ### The last pages -/

namespace Kernel

variable {img : Image} {k : Kernel} {n : ℕ} {file : Program}

theorem tablesFound_of_room {m : Machine} {h : Heap.State} {r : ℕ} {bytes : UInt32}
    (hr : Room h r) (hle : alignedSize bytes ≤ r) : TablesFound h m bytes := by
  obtain ⟨bs, d, hok, hd, hfree, hsize⟩ := hr
  refine Or.inr (Or.inl ⟨d, ?_, hfree, hle.trans hsize⟩)
  rwa [hok.blocks]

/-- No page is left for the user stack. -/
theorem Calm.checkedFailure (h : k.Calm img 3800 n n) (hfree : FreeFrom k.machine n n)
    (h0 : file.size ≠ 0) (hsize : alignedSize file.size ≤ 2200) :
    ¬ NoFailure img k file ∧ CheckedFailure img k file := by
  have hstack : alignedSize TASK_STACK_SIZE = 1024 := by decide
  obtain ⟨⟨buf, k₁⟩, h1, hbuf, he₁, -⟩ :=
    @kmalloc_of_room img k 3800 1500 h.room file.size h0 (by omega)
  dsimp only at hbuf he₁
  obtain ⟨⟨stack, k₂⟩, h2, hstack0, he₂, -⟩ :=
    @kmalloc_of_room img k₁ 1500 0 he₁.room TASK_STACK_SIZE (by decide) (by omega)
  dsimp only at hstack0 he₂
  have hpage : k₂.machine.allocPage.1 = 0 := by
    rw [he₂.machine, he₁.machine, allocPage_of_noPage hfree]
  refine ⟨fun hno => ?_, fun _ _ hcall => ?_, Or.inr ⟨_, _, _, _, h1, hbuf, h2, hpage⟩⟩
  · obtain ⟨-, -, hno⟩ := hno _ h1
    exact (hno _ h2).2.2.1 hpage
  obtain ⟨rfl, rfl⟩ | ⟨rfl, rfl⟩ := hcall.of_stack h1 h2 (Or.inr hpage)
  · exact tablesFound_of_room h.room (by omega)
  · exact tablesFound_of_room he₁.room (by omega)

/-- One page is left, which becomes the user stack.  There is none for the directory. -/
theorem Calm.not_failsCleanly (h : k.Calm img 3800 n (n + 1)) (h0 : file.size ≠ 0)
    (hsize : alignedSize file.size ≤ 2200) :
    ¬ NoFailure img k file ∧ ¬ FailsCleanly img k file := by
  have hstack : alignedSize TASK_STACK_SIZE = 1024 := by decide
  have htask : alignedSize TASK_SIZE = 152 := by decide
  have hn := h.machine.lt_of_lt (Nat.lt_succ_self n)
  have hpos := h.machine.lt
  obtain ⟨⟨buf, k₁⟩, h1, hbuf, he₁, -⟩ :=
    @kmalloc_of_room img k 3800 1500 h.room file.size h0 (by omega)
  dsimp only at hbuf he₁
  obtain ⟨⟨stack, k₂⟩, h2, hstack0, he₂, -⟩ :=
    @kmalloc_of_room img k₁ 1500 200 he₁.room TASK_STACK_SIZE (by decide) (by omega)
  dsimp only at hstack0 he₂
  obtain ⟨halloc, hfree⟩ := h.machine.free.alloc (by omega) (Nat.lt_succ_self n)
  have halloc₂ : k₂.machine.allocPage = (frameAddr n, k.machine.take n) := by
    rw [he₂.machine, he₁.machine, halloc]
  have hpage : k₂.machine.allocPage.1 ≠ 0 := by
    rw [halloc₂]
    intro he
    have := (frameAddr_eq_zero (by omega)).1 he
    omega
  obtain ⟨⟨t, k₃⟩, h3, ht, he₃, -⟩ := @kmalloc_of_room img
    { k₂ with machine := k₂.machine.allocPage.2 } 200 0 he₂.room TASK_SIZE (by decide) (by omega)
  dsimp only at ht he₃
  have hdirectory : vmmCreatePageDirectory img k₃.machine =
      some (0, { k₃.machine with outOfMemory := true }) := by
    have hnone : k₃.machine.allocPage = (0, { k₃.machine with outOfMemory := true }) := by
      refine allocPage_of_noPage (n := n + 1) ?_
      rw [he₃.machine, halloc₂]
      exact hfree
    unfold vmmCreatePageDirectory
    rw [hnone]
    exact if_pos rfl
  refine ⟨fun hno => ?_, ?_⟩
  · obtain ⟨-, -, hno⟩ := hno _ h1
    obtain ⟨-, -, -, hno⟩ := hno _ h2
    obtain ⟨-, -, hno⟩ := hno _ h3
    exact (hno _ hdirectory).1 rfl
  · rintro ⟨k', hk, -⟩
    obtain h1' | ⟨_, _, _, h1', -, h2', -⟩ := createUserProcess_zero hk
    · cases h1.symm.trans h1'
      exact hbuf rfl
    cases h1.symm.trans h1'
    obtain ⟨_, _, h3', ⟨hz | hz⟩ | ⟨-, -, _, h4', -⟩⟩ := createUserTask_zero h2'
    · cases h2.symm.trans h3'
      exact hstack0 hz
    · cases h2.symm.trans h3'
      exact hpage hz
    · cases h2.symm.trans h3'
      cases h3.symm.trans h4'
      exact ht rfl

end Kernel

/-- A machine on which no page, or one, is left after the start. -/
theorem exists_lastPages {n : ℕ} (hn : n ≤ 1) : ∃ s, Os.Reached smallImage s ∧
    s.system.kernel.Calm smallImage 3800 514 (514 + n) := by
  obtain ⟨k, hboot, hcalm⟩ : Gives (rootedKernel.boot smallImage Pmm.MULTIBOOT_BOOTLOADER_MAGIC
      (regionMap 0x200000 (UInt32.ofNat ((n + 2) * 4096))))
      fun k => k.Calm smallImage 3800 514 (514 + n) := by
    refine Kernel.boot_of_open (fun m hp ho hh => ?_) (by omega)
    obtain rfl | rfl : n = 0 ∨ n = 1 := by omega
    · refine open_of_freeFrom (by decide) (freeFrom_regionMap hp (by decide) fun i => ?_) le_rfl
        ho hh
      have hw : Pmm.freeWindow 0x200000 (UInt32.ofNat ((0 + 2) * 4096)) i ↔ 512 ≤ i ∧ i < 514 :=
        Iff.rfl
      rw [hw]
      omega
    · refine open_of_freeFrom (by decide) (freeFrom_regionMap hp (by decide) fun i => ?_) le_rfl
        ho hh
      have hw : Pmm.freeWindow 0x200000 (UInt32.ofNat ((1 + 2) * 4096)) i ↔ 512 ≤ i ∧ i < 515 :=
        Iff.rfl
      rw [hw]
      omega
  exact ⟨_, .boot twoBytes.fs hboot, hcalm⟩

/-- No page is left, and the call fails cleanly. -/
theorem reached_failsCleanly_noPage : ∃ s, Os.Reached smallImage s ∧
    ¬ Kernel.NoFailure smallImage s.system.kernel overwritingProgram ∧
    Kernel.FailsCleanly smallImage s.system.kernel overwritingProgram := by
  obtain ⟨s, hs, hcalm⟩ := exists_lastPages (n := 0) (by omega)
  obtain ⟨hno, hchecked⟩ := @Kernel.Calm.checkedFailure smallImage s.system.kernel 514
    overwritingProgram hcalm hcalm.machine.free (by decide) (by decide)
  exact ⟨s, hs, hno,
    (reached_failsCleanly_iff hs hcalm.machine.clean overwritingProgram).2 (Or.inr hchecked) hno⟩

/-- One page is left, and there is none for the directory. -/
theorem not_forall_failsCleanly : ¬ ∀ s file, Os.Reached smallImage s →
    ¬ Kernel.NoFailure smallImage s.system.kernel file →
    Kernel.FailsCleanly smallImage s.system.kernel file := by
  intro hall
  obtain ⟨s, hs, hcalm⟩ := exists_lastPages (n := 1) (by omega)
  obtain ⟨hno, hfails⟩ := @Kernel.Calm.not_failsCleanly smallImage s.system.kernel 514
    overwritingProgram hcalm (by decide) (by decide)
  exact hfails (hall s _ hs hno)

end NosmeriOs.Tasks
