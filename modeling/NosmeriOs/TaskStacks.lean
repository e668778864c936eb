import NosmeriOs.HeapSpaces
import NosmeriOs.TaskLoader
import NosmeriOs.TaskFailure

/-! # Kernel stacks in the spaces of the tasks

* `HasBlock` and `Enlarges`: blocks of the heap that stay in use, with their sizes.
* `Spaced`: the heap is mapped in the directories `D`.  `Allocates` is what `kmalloc` keeps of it,
  and `Opened` what the creation of a task makes of it.
* `StackOk`: the kernel stack of a task is a block of the heap, for which its directory has the
  tables; `Spaced.createUserTask` and `Spaced.createUserProcess` for the new tasks. -/

namespace NosmeriOs.Heap

/-! ### Blocks and their sizes -/

/-- The block at `p` is in use and has at least `n` bytes. -/
def HasBlock (h : State) (p n : ℕ) : Prop := ∃ c, HasBytes h p n c

namespace HasBlock

variable {σ : Type} {h : State} {p q n : ℕ}

theorem kmalloc (hb : HasBlock h p n) (alloc : PageSource σ) (bytes : UInt32) (s : σ) :
    HasBlock (Heap.kmalloc alloc bytes h s).2.1 p n := by
  obtain ⟨c, hc⟩ := hb
  exact ⟨c, hc.kmalloc alloc bytes s⟩

theorem kfree (hb : HasBlock h p n) (hq : Live h q) (hne : p ≠ q) :
    HasBlock (Heap.kfree h q) p n := by
  obtain ⟨c, bs, b, hok, hused, rfl, hn, -⟩ := hb
  obtain ⟨f, hf, rfl⟩ := hok.live_iff.1 hq
  obtain ⟨bs', hok', hiff, -⟩ := kfree_spec hok hf
  refine ⟨_, bs', b, hok', (hiff b).2 ⟨?_, hused⟩, rfl, hn, fun _ _ => rfl⟩
  rintro rfl
  exact hne rfl

theorem live (hb : HasBlock h p n) : Live h p := by
  obtain ⟨c, bs, b, hok, hused, hp, -⟩ := hb
  exact ⟨bs, b, hok, hused, hp⟩

theorem bounds (hb : HasBlock h p n) : HEAP_START ≤ p ∧ p + n ≤ h.heapCurrentEnd ∧
    h.heapCurrentEnd ≤ HEAP_MAX_ADDR := by
  obtain ⟨c, bs, b, hok, hused, rfl, hn, -⟩ := hb
  have h1 := hok.layout.addr_pos hused.1
  have h2 := hok.layout.le
  refine ⟨?_, by omega, h2⟩
  simp only [HEAP_START]
  omega

/-- A new block is as large as it was asked to be. -/
theorem of_kmalloc (ho : Owns h []) (alloc : PageSource σ) (bytes : UInt32) (s : σ)
    (h0 : (Heap.kmalloc alloc bytes h s).1 ≠ 0) :
    HasBlock (Heap.kmalloc alloc bytes h s).2.1 (Heap.kmalloc alloc bytes h s).1
      (alignedSize bytes) := by
  obtain ⟨bs, hok, -⟩ := ho
  obtain ⟨bs', hm⟩ := kmalloc_spec alloc bytes s hok
  obtain ⟨he, -⟩ | ⟨c, hp, hc, -, hiff⟩ := hm.result
  · exact absurd he h0
  · exact ⟨_, bs', c, hm.ok, (hiff c).2 (Or.inl rfl), hp, hc, fun _ _ => rfl⟩

end HasBlock

/-- The heap may have grown, and has other blocks in use beside those that it had. -/
structure Enlarges (h h' : State) : Prop where
  owns : Owns h' []
  le : h.heapCurrentEnd ≤ h'.heapCurrentEnd
  block : ∀ p n, HasBlock h p n → HasBlock h' p n

namespace Enlarges

variable {σ : Type} {h h' h'' : State} {p : ℕ}

theorem refl (ho : Owns h []) : Enlarges h h := ⟨ho, le_rfl, fun _ _ => id⟩

theorem trans (h₁ : Enlarges h h') (h₂ : Enlarges h' h'') : Enlarges h h'' :=
  ⟨h₂.owns, h₁.le.trans h₂.le, fun p n hb => h₂.block p n (h₁.block p n hb)⟩

theorem kmalloc (ho : Owns h []) (alloc : PageSource σ) (bytes : UInt32) (s : σ) :
    Enlarges h (Heap.kmalloc alloc bytes h s).2.1 := by
  refine ⟨?_, ?_, fun p n hb => hb.kmalloc alloc bytes s⟩
  · obtain ⟨-, ho⟩ | ⟨-, -, ho⟩ := ho.kmalloc alloc bytes s
    · exact ho
    · exact ho.of_subset List.nodup_nil (List.nil_subset _)
  · exact kmalloc_grown (P := fun e _ => h.heapCurrentEnd ≤ e)
      (fun e _ _ _ _ _ h _ => h.trans (Nat.le_add_right e _)) (fun _ _ _ _ h _ => h) ho bytes le_rfl

/-- A block is given back that was not in use before. -/
theorem kfree (h₁ : Enlarges h h') (hp : ¬ Live h p) (hp' : Live h' p) :
    Enlarges h (Heap.kfree h' p) := by
  refine ⟨?_, (heapCurrentEnd_kfree h' p).symm ▸ h₁.le,
    fun q n hq => (h₁.block q n hq).kfree hp' ?_⟩
  · obtain ⟨bs, b, hok, hb, rfl⟩ := hp'
    exact Owns.kfree ⟨bs, hok, List.nodup_singleton _, fun q hq => by
      rw [List.mem_singleton.1 hq]
      exact ⟨b, hb, rfl⟩⟩
  · rintro rfl
    exact hp hq.live

end Enlarges

end NosmeriOs.Heap

namespace NosmeriOs.Tasks

open Vmm Vfs Heap Ledgers

/-! ### Growing -/

theorem outOfMemory_of_allocPage {m m' : Machine} (h : m.allocPage = (0, m')) :
    m'.outOfMemory = true := by
  have h1 := congrArg Prod.fst h
  have h2 := congrArg (fun a => a.2.outOfMemory) h
  unfold Machine.allocPage at h1 h2
  dsimp only at h1 h2
  rw [← h2, h1]
  simp

/-- As long as no page is missing, the heap gets the page that it asks for. -/
theorem growHeap_found {img : Image} {m m' : Machine} {e : ℕ}
    (h : (Kernel.growHeap img e (some m)).2 = some m') (ho : m'.outOfMemory = false) :
    (Kernel.growHeap img e (some m)).1 ≠ none ∧ ∃ p m₁, m.allocPage = (p, m₁) ∧
      vmmMapPage img m₁ (UInt32.ofNat e) p (PAGE_PRESENT ||| PAGE_RW) = some m' := by
  obtain he | ⟨p, m₁, hp, he, hm⟩ := growHeap_cases h
  · rw [outOfMemory_of_allocPage he] at ho
    cases ho
  · refine ⟨?_, p, m₁, he, hm⟩
    unfold Kernel.growHeap
    simp [he, hp, hm]

namespace Kernel

variable {img : Image} {k k' k'' : Kernel} {ρ ρ' : Ledger ℕ Use} {D D' : Set ℕ} {bytes : UInt32}
  {p : ℕ}

/-- The heap is mapped in the directories in `D`, one of which is loaded. -/
structure Spaced (img : Image) (k : Kernel) (ρ : Ledger ℕ Use) (D : Set ℕ) : Prop where
  layout : Layout img k.machine ρ
  isDirectory : ∀ d ∈ D, IsDirectory img ρ d
  current : frameOf k.machine.cr3 ∈ D
  shares : Shares img k.machine D k.heap.heapCurrentEnd
  owns : Owns k.heap []

/-- The table of the next page of the heap can be written. -/
def Extensible (img : Image) (k : Kernel) : Prop := AtHand img k.machine k.heap.heapCurrentEnd

/-- From `k` to `k'` tables are added only. -/
structure Advances (img : Image) (D : Set ℕ) (k k' : Kernel) : Prop where
  cr3 : k'.machine.cr3 = k.machine.cr3
  added : TablesAdded img D k.machine k'.machine
  extensible : Extensible img k → Extensible img k'

theorem Advances.trans (h : Advances img D k k') (h' : Advances img D k' k'') :
    Advances img D k k'' :=
  ⟨h'.cr3.trans h.cr3, h.added.trans h'.added h.cr3, h'.extensible ∘ h.extensible⟩

/-- The kernel's machine after pages have been added to the heap up to `e`. -/
structure GrownTo (img : Image) (k : Kernel) (ρ : Ledger ℕ Use) (D : Set ℕ) (e : ℕ) (m : Machine)
    (ρ' : Ledger ℕ Use) : Prop where
  layout : Layout img m ρ'
  extend : Extends HeapUse (freeFrames k.machine) (freeFrames m) ρ ρ'
  shares : Shares img m D e
  atHand : AtHand img m e
  added : TablesAdded img D k.machine m
  cr3 : m.cr3 = k.machine.cr3

/-- Another page is added. -/
theorem GrownTo.page {e : ℕ} {m m' : Machine} (h : GrownTo img k ρ D e m ρ')
    (hs : Spaced img k ρ D) (h1 : HEAP_START ≤ e) (h2 : e % PAGE_SIZE = 0)
    (h3 : e + PAGE_SIZE ≤ HEAP_MAX_ADDR) (hg : (growHeap img e (some m)).2 = some m')
    (ho : m'.outOfMemory = false) : ∃ ρ'', GrownTo img k ρ D (e + PAGE_SIZE) m' ρ'' := by
  obtain ⟨-, p, m₁, ha, hm⟩ := growHeap_found hg ho
  have hk := (Keeps.of_allocPage ha).trans (keeps_vmmMapPage hm)
  have hmax : e < HEAP_MAX_ADDR := by
    simp only [PAGE_SIZE] at h3
    omega
  have hD : ∀ d ∈ D, IsDirectory img ρ' d := fun d hd =>
    hs.layout.isDirectory h.extend (hs.isDirectory d hd)
  have hc : frameOf m.cr3 ∈ D := by
    rw [h.cr3]
    exact hs.current
  obtain ⟨ρ'', hl, hext⟩ := layout_mapHeap h.layout (hD _ hc) h1 hmax ha hm ho
  obtain ⟨hshares, hx, hadded⟩ := h.shares.grow h.layout hD hc h1 hmax h2 h.atHand ha hm ho
  exact ⟨ρ'', hl, h.extend.trans hext, hshares, hx, h.added.trans hadded h.cr3,
    hk.cr3.trans h.cr3⟩

/-- No page has been added yet, or the heap is mapped up to its new end. -/
def MaybeGrown (img : Image) (k : Kernel) (ρ : Ledger ℕ Use) (D : Set ℕ) (e : ℕ)
    (o : Option Machine) : Prop := ∀ m, o = some m → m.outOfMemory = false →
  e = k.heap.heapCurrentEnd ∧ m = k.machine ∨
    k.heap.heapCurrentEnd < e ∧ (Extensible img k → ∃ ρ', GrownTo img k ρ D e m ρ')

theorem Spaced.maybeGrown (h : Spaced img k ρ D) (bytes : UInt32) :
    MaybeGrown img k ρ D (Heap.kmalloc (growHeap img) bytes k.heap
      (some k.machine)).2.1.heapCurrentEnd
      (Heap.kmalloc (growHeap img) bytes k.heap (some k.machine)).2.2 := by
  refine kmalloc_grown ?_ ?_ h.owns bytes ?_
  · intro e s page h1 h2 h3 hP _ m' hm' ho'
    cases s with
    | none => cases hm'
    | some m =>
        have hk : Keeps m m' := by
          obtain ⟨-, p, m₁, ha, hmap⟩ := growHeap_found hm' ho'
          exact (Keeps.of_allocPage ha).trans (keeps_vmmMapPage hmap)
        have hlt : e < e + PAGE_SIZE := Nat.lt_add_of_pos_right (by decide)
        refine Or.inr ?_
        obtain ⟨rfl, rfl⟩ | ⟨hlt', hgrown⟩ := hP m rfl (hk.outOfMemory ho')
        · refine ⟨hlt, fun hx => ?_⟩
          have hstart : GrownTo img k ρ D k.heap.heapCurrentEnd k.machine ρ :=
            ⟨h.layout, .refl .., h.shares, hx, .refl .., rfl⟩
          exact hstart.page h h1 h2 h3 hm' ho'
        · refine ⟨hlt'.trans hlt, fun hx => ?_⟩
          obtain ⟨ρ₁, h₁⟩ := hgrown hx
          exact h₁.page h h1 h2 h3 hm' ho'
  · -- a page that is missing would have been noted
    intro e s _ _ _ hnone m' hm' ho'
    cases s with
    | none => cases hm'
    | some m => exact absurd hnone (growHeap_found hm' ho').1
  · rintro m ⟨⟩ _
    exact Or.inl ⟨rfl, rfl⟩

/-- `kmalloc` adds pages to the heap, and their tables to the loaded directory. -/
theorem Spaced.kmalloc (h : Spaced img k ρ D) (hk : k.kmalloc img bytes = some (p, k'))
    (ho : k'.machine.outOfMemory = false)
    (hr : k'.heap.heapCurrentEnd ≠ k.heap.heapCurrentEnd → Extensible img k) :
    (∃ ρ', Spaced img k' ρ' D ∧
      Extends HeapUse (freeFrames k.machine) (freeFrames k'.machine) ρ ρ') ∧
    Advances img D k k' := by
  obtain ⟨heap, machine, rfl, he⟩ := kmalloc_some hk
  have hgrown := h.maybeGrown bytes
  have hown : Owns (Heap.kmalloc (growHeap img) bytes k.heap (some k.machine)).2.1 [] := by
    obtain ⟨-, ho⟩ | ⟨-, -, ho⟩ := h.owns.kmalloc (growHeap img) bytes (some k.machine)
    · exact ho
    · exact ho.of_subset List.nodup_nil (List.nil_subset _)
  rw [he] at hgrown hown
  dsimp only at hgrown hown hr ho
  obtain ⟨hend, rfl⟩ | ⟨hlt, hinv⟩ := hgrown machine rfl ho
  · refine ⟨⟨ρ, ⟨h.layout, h.isDirectory, h.current, ?_, hown⟩, .refl ..⟩,
      rfl, .refl .., fun hx => ?_⟩
    · rw [hend]
      exact h.shares
    · unfold Extensible at hx ⊢
      rw [hend]
      exact hx
  · obtain ⟨ρ', hg⟩ := hinv (hr hlt.ne')
    refine ⟨⟨ρ', ⟨hg.layout, fun d hd => h.layout.isDirectory hg.extend (h.isDirectory d hd), ?_,
      hg.shares, hown⟩, hg.extend⟩, hg.cr3, hg.added, fun _ => hg.atHand⟩
    rw [hg.cr3]
    exact h.current

/-- Nothing but records has changed. -/
theorem Spaced.congr (h : Spaced img k ρ D) (hheap : k'.heap = k.heap)
    (hm : k'.machine = k.machine) : Spaced img k' ρ D := by
  obtain ⟨h1, h2, h3, h4, h5⟩ := h
  rw [← hm] at h1 h3 h4
  rw [← hheap] at h4 h5
  exact ⟨h1, h2, h3, h4, h5⟩

theorem Advances.of_eq (hheap : k'.heap = k.heap) (hm : k'.machine = k.machine) :
    Advances img D k k' := by
  refine ⟨by rw [hm], ?_, ?_⟩
  · rw [hm]
    exact .refl ..
  · unfold Extensible
    rw [hheap, hm]
    exact id

/-! ### Calls of `kmalloc` in a row -/

/-- What `kmalloc` does, and calls of it in a row, with other things done to the records. -/
structure Allocates (img : Image) (k k' : Kernel) : Prop where
  keeps : Keeps k.machine k'.machine
  heap : Enlarges k.heap k'.heap
  spaced : k'.machine.outOfMemory = false →
    (k'.heap.heapCurrentEnd ≠ k.heap.heapCurrentEnd → Extensible img k) →
    ∀ ρ D, Spaced img k ρ D → (∃ ρ', Spaced img k' ρ' D ∧ Gains k.machine ρ k'.machine ρ') ∧
      Advances img D k k'

namespace Allocates

theorem of_eq (ho : Owns k.heap []) (hheap : k'.heap = k.heap) (hm : k'.machine = k.machine) :
    Allocates img k k' := by
  refine ⟨hm ▸ .refl _, ?_, fun _ _ ρ D hs => ⟨⟨ρ, hs.congr hheap hm, ?_⟩, .of_eq hheap hm⟩⟩
  · rw [hheap]
    exact .refl ho
  · rw [hm]
    exact Extends.refl ..

theorem trans (h : Allocates img k k') (h' : Allocates img k' k'') : Allocates img k k'' := by
  refine ⟨h.keeps.trans h'.keeps, h.heap.trans h'.heap, fun hclean hr ρ D hs => ?_⟩
  have hle := h.heap.le
  have hle' := h'.heap.le
  obtain ⟨⟨ρ', hs', hg⟩, ha⟩ := h.spaced (h'.keeps.outOfMemory hclean)
    (fun hne => hr (by omega)) ρ D hs
  obtain ⟨⟨ρ'', hs'', hg'⟩, ha'⟩ := h'.spaced hclean
    (fun hne => ha.extensible (hr (by omega))) ρ' D hs'
  exact ⟨⟨ρ'', hs'', Extends.trans hg hg'⟩, ha.trans ha'⟩

theorem kmalloc (hk : k.kmalloc img bytes = some (p, k')) (ho : Owns k.heap []) :
    Allocates img k k' ∧ (p ≠ 0 → HasBlock k'.heap p (alignedSize bytes)) := by
  have hkeeps : Keeps k.machine k'.machine := by
    obtain ⟨_, _, rfl, hg, -⟩ := kmalloc_cases hk ho
    exact hg.keeps
  obtain ⟨heap, machine, rfl, he⟩ := kmalloc_some hk
  have henl := Enlarges.kmalloc ho (growHeap img) bytes (some k.machine)
  have hb := HasBlock.of_kmalloc ho (growHeap img) bytes (some k.machine)
  rw [he] at henl hb
  refine ⟨⟨hkeeps, henl, fun hclean hr ρ D hs => ?_⟩, hb⟩
  obtain ⟨⟨ρ', hs', hext⟩, ha⟩ := hs.kmalloc hk hclean hr
  exact ⟨⟨ρ', hs', Gains.of_heap hext⟩, ha⟩

theorem createFile {type : FileType} {ops : FileOps} {f : ℕ}
    (hk : k.createFile img type ops = some (f, k')) (ho : Owns k.heap []) :
    Allocates img k k' := by
  obtain ⟨⟨p, k₁⟩, h1, h⟩ := Option.bind_eq_some_iff.1 hk
  cases h
  have a₁ := (kmalloc h1 ho).1
  exact a₁.trans (.of_eq a₁.heap.owns rfl rfl)

theorem initTaskFds {t : ℕ} (hk : k.initTaskFds img t = some k') (ho : Owns k.heap []) :
    Allocates img k k' := by
  obtain ⟨⟨f₀, k₁⟩, h1, h⟩ := Option.bind_eq_some_iff.1 hk
  obtain ⟨⟨f₁, k₂⟩, h2, h⟩ := Option.bind_eq_some_iff.1 h
  obtain ⟨⟨f₂, k₃⟩, h3, h⟩ := Option.bind_eq_some_iff.1 h
  cases h
  have a₁ := createFile h1 ho
  have a₂ := createFile h2 a₁.heap.owns
  have a₃ := createFile h3 a₂.heap.owns
  have r₀ : Allocates img k (k.setTask t { k.tasks t with fdTable := fun _ => 0 }) :=
    .of_eq ho rfl rfl
  have r₁ : Allocates img k₁ (k₁.setFd t 0 f₀) := .of_eq a₁.heap.owns rfl rfl
  have r₂ : Allocates img k₂ (k₂.setFd t 1 f₁) := .of_eq a₂.heap.owns rfl rfl
  have r₃ : Allocates img k₃ (k₃.setFd t 2 f₂) := .of_eq a₃.heap.owns rfl rfl
  exact r₀.trans (a₁.trans (r₁.trans (a₂.trans (r₂.trans (a₃.trans r₃)))))

theorem addTask {t stack : ℕ} {userStack cr3 : UInt32} {isUser : Bool}
    (hk : k.addTask img t stack userStack cr3 isUser = some k') (ho : Owns k.heap []) :
    Allocates img k k' := by
  obtain ⟨k₁, h1, h⟩ := Option.bind_eq_some_iff.1 hk
  cases h
  have a₁ := initTaskFds h1 ho
  refine Allocates.trans ?_ (a₁.trans (.of_eq a₁.heap.owns rfl rfl))
  exact .of_eq ho rfl rfl

/-- A block is given back that was not in use before. -/
theorem kfree (h : Allocates img k k') (hp : ¬ Live k.heap p) (hp' : Live k'.heap p) :
    Allocates img k (k'.kfree p) := by
  have hend := heapCurrentEnd_kfree k'.heap p
  refine ⟨h.keeps, h.heap.kfree hp hp', fun hclean hr ρ D hs => ?_⟩
  obtain ⟨⟨ρ', hs', hg⟩, ha⟩ := h.spaced hclean (fun hne => hr (by
    show (Heap.kfree k'.heap p).heapCurrentEnd ≠ _
    rw [hend]
    exact hne)) ρ D hs
  refine ⟨⟨ρ', ⟨hs'.layout, hs'.isDirectory, hs'.current, ?_, (h.heap.kfree hp hp').owns⟩, hg⟩,
    ha.cr3, ha.added, fun hx => ?_⟩
  · show Shares img k'.machine D (Heap.kfree k'.heap p).heapCurrentEnd
    rw [hend]
    exact hs'.shares
  · show AtHand img k'.machine (Heap.kfree k'.heap p).heapCurrentEnd
    rw [hend]
    exact ha.extensible hx

end Allocates

/-! ### A new space -/

theorem Owns.le_max {h : State} {ptrs : List ℕ} (ho : Owns h ptrs) :
    h.heapCurrentEnd ≤ HEAP_MAX_ADDR := by
  obtain ⟨bs, hok, -⟩ := ho
  exact hok.layout.le

/-- A page is taken for the user stack. -/
theorem Spaced.allocPage (h : Spaced img k ρ D) {page : UInt32} {m : Machine}
    (ha : k.machine.allocPage = (page, m)) (ho : m.outOfMemory = false) :
    ∃ f, page = frameAddr f ∧ f < 2 ^ 20 ∧
      Spaced img { k with machine := m } (ρ.give f .reserved) D ∧
      Advances img D k { k with machine := m } := by
  have hframes : m.frames = k.machine.frames := congrArg (fun a => a.2.frames) ha.symm
  have hcr3 : m.cr3 = k.machine.cr3 := (Keeps.of_allocPage ha).cr3
  obtain ⟨f, rfl, hlt, -, hl, hext⟩ := h.layout.allocPage (u := .reserved) ha ho rfl (by simp)
    (fun d hd => by cases hd)
  refine ⟨f, rfl, hlt, ⟨hl, fun d hd => h.layout.isDirectory hext (h.isDirectory d hd), ?_,
    h.shares.of_frames hframes, h.owns⟩, hcr3, .of_eq fun d _ i _ => ?_, fun hx => ?_⟩
  · show frameOf m.cr3 ∈ D
    rw [hcr3]
    exact h.current
  · show m.frames d i = _
    rw [hframes]
  · unfold Extensible AtHand Machine.pde at hx ⊢
    dsimp only
    rw [hframes, hcr3]
    exact hx

/-- The new directory has the tables that the kernel's has. -/
theorem Spaced.newAddressSpace (h : Spaced img k ρ D) {f : ℕ} (hf : ρ f = some .reserved)
    (hlt : f < 2 ^ 20) {cr3 : UInt32} {m : Machine}
    (hm : k.newAddressSpace img (frameAddr f) = some (cr3, m))
    (hcur : k.current.cr3 = k.machine.cr3) (hclean : Clean m) :
    (∃ ρ', Spaced img { k with machine := m } ρ' (insert (frameOf cr3) D)) ∧
      Advances img D k { k with machine := m } ∧
      ∀ i, IsHeapSlot i → present (k.machine.frames img.pageDirectory i) = true →
        present (m.frames (frameOf cr3) i) = true := by
  obtain ⟨⟨c, m₁⟩, hc, hm⟩ := Option.bind_eq_some_iff.1 hm
  obtain ⟨m₂, hs, hm⟩ := Option.bind_eq_some_iff.1 hm
  obtain ⟨m₃, hmap, hm⟩ := Option.bind_eq_some_iff.1 hm
  obtain ⟨m₄, hs', hm⟩ := Option.bind_eq_some_iff.1 hm
  cases hm
  obtain ⟨hc0, rfl⟩ := vmmSwitchPageDirectory_eq hs
  obtain ⟨-, rfl⟩ := vmmSwitchPageDirectory_eq hs'
  have hkm := keeps_vmmMapPage hmap
  have hclean₃ : Clean m₃ := ⟨hclean.outOfMemory, hclean.highDirectory⟩
  have hclean₁ : Clean m₁ :=
    ⟨hkm.outOfMemory hclean₃.outOfMemory, hkm.highDirectory hclean₃.highDirectory⟩
  have hdir := h.isDirectory _ h.current
  have hmax := Owns.le_max h.owns
  have hlow := vmmCreatePageDirectory_lt hc hclean₁.highDirectory
  obtain ⟨d, rfl, hdlt, hdf, hl₁, hext⟩ :=
    h.layout.createPageDirectory hdir hc hc0 hclean₁.outOfMemory hlow
  obtain ⟨hmaps, -⟩ := h.layout.createPageDirectory_maps hdir hdlt hc hc0 hlow
  obtain ⟨-, huser⟩ := @Layout.createPageDirectory_userOnly _ _ _ _ d _ h.layout hdir hdlt hc hc0
    hlow
  obtain ⟨hshares, hkept, hcopy⟩ :=
    h.shares.createPageDirectory h.layout h.isDirectory hdir hmax hc hc0 hlow
  have hf₁ := hext.of_some h.layout.sound hf
  obtain ⟨ρ', hl₃, -, hold, -⟩ :=
    Kernel.mapStack hl₁ (Ledger.give_self ..) hf₁ hlt hmaps huser hmap hclean₃.outOfMemory
  rw [frameOf_frameAddr hdlt] at hshares hcopy ⊢
  have hD₁ : ∀ g ∈ insert d D, IsDirectory img (ρ.give d .directory) g := by
    rintro g (rfl | hg)
    · exact Or.inr (Ledger.give_self ..)
    · exact h.layout.isDirectory hext (h.isDirectory g hg)
  have hD₃ : ∀ g ∈ insert d D, IsDirectory img ρ' g := by
    refine fun g hg => (hD₁ g hg).imp_right fun hu => hold g _ ?_
    rw [Ledger.give_of_ne, hu]
    rintro rfl
    cases hf₁.symm.trans hu
  have hidx : pdIdx USER_STACK_BOTTOM = 767 := by decide
  have hkept₃ : HeapKept img { m₁ with cr3 := frameAddr d } (ρ.give d .directory) m₃ := by
    refine HeapKept.of_mapPage (hl₁.of_frames rfl rfl) ?_ (by omega) (by omega) hmap
      hclean₃.outOfMemory
    rw [show frameOf (Machine.cr3 { m₁ with cr3 := frameAddr d }) = d from frameOf_frameAddr hdlt]
    exact hD₁ d (Set.mem_insert ..)
  have hshares₃ : Shares img m₃ (insert d D) k.heap.heapCurrentEnd :=
    Shares.kept (m := { m₁ with cr3 := frameAddr d }) (hshares.of_frames rfl)
      (hl₁.of_frames rfl rfl) hD₁ hmax hkept₃
  have hall : ∀ g, IsDirectory img ρ g → ∀ i, IsHeapSlot i →
      m₃.frames g i = k.machine.frames g i := by
    intro g hg i hi
    rw [hkept₃.slots g (h.layout.isDirectory hext hg) i hi]
    exact hkept.slots g hg i hi
  refine ⟨⟨ρ', hl₃.of_frames rfl rfl, hD₃, ?_, hshares₃.of_frames rfl, h.owns⟩, ⟨hcur,
    .of_eq fun g hg => hall g (h.isDirectory g hg), fun hx hslot hp => ?_⟩, fun i hi hp => ?_⟩
  · exact Or.inr (hcur ▸ h.current)
  · unfold Extensible AtHand Machine.pde at hx
    unfold Machine.pde
    dsimp only at hp ⊢
    rw [hall _ (Or.inl rfl) _ hslot] at hp
    rw [hcur, hall _ hdir _ hslot]
    exact hx hslot hp
  · show present (m₃.frames d i) = true
    rw [hkept₃.slots d (hD₁ d (Set.mem_insert ..)) i hi]
    show present (m₁.frames d i) = true
    rw [hcopy i hi hp, hp]

/-! ### New tasks -/

/-- The block of a new stack. -/
theorem stack_of_addTask {t stack : ℕ} {userStack cr3 : UInt32} {isUser : Bool}
    (hk : k.addTask img t stack userStack cr3 isUser = some k') (ht : t ≠ k.currentTask)
    (ho : Owns k.heap []) : (k'.tasks t).kernelStackBottom = stack ∧ (k'.tasks t).cr3 = cr3 := by
  obtain ⟨-, hh, -⟩ := addTask_cases hk ht ho
  exact ⟨hh.kernelStack, hh.cr3⟩

theorem alignedSize_stack : alignedSize TASK_STACK_SIZE = TASK_STACK_SIZE.toNat := by decide

theorem Allocates.createTask {t : ℕ} {ptrs : List ℕ} (hk : k.createTask img = some (t, k'))
    (hc : k.CurrentHeld ptrs) (ho : Owns k.heap ptrs) : Allocates img k k' ∧
      (t ≠ 0 → HasBlock k'.heap (k'.tasks t).kernelStackBottom TASK_STACK_SIZE.toNat) := by
  obtain ⟨⟨stack, k₁⟩, h1, h⟩ := Option.bind_eq_some_iff.1 hk
  obtain ⟨a₁, hb₁⟩ := kmalloc h1 (owns_nil ho)
  obtain ⟨hlive₁, hnew⟩ := kmalloc_live ho h1
  obtain ⟨heap₁, machine₁, rfl, -, hres1⟩ := kmalloc_cases h1 ho
  dsimp only at h
  split_ifs at h with h0
  · cases h
    exact ⟨a₁, fun h => absurd rfl h⟩
  obtain ⟨he, -⟩ | ⟨-, -, ho1⟩ := hres1
  · exact absurd he h0
  obtain ⟨⟨t', k₂⟩, h2, h⟩ := Option.bind_eq_some_iff.1 h
  obtain ⟨a₂, -⟩ := kmalloc h2 a₁.heap.owns
  obtain ⟨heap₂, machine₂, rfl, -, hres2⟩ := kmalloc_cases h2 ho1
  have hb₂ := a₂.heap.block _ _ (hb₁ h0)
  dsimp only at h
  split_ifs at h with ht
  · cases h
    exact ⟨(a₁.trans a₂).kfree hnew hb₂.live, fun h => absurd rfl h⟩
  · obtain ⟨he, -⟩ | ⟨-, -, ho2⟩ := hres2
    · exact absurd he ht
    obtain ⟨k₃, h3, h⟩ := Option.bind_eq_some_iff.1 h
    cases h
    have a₃ := addTask h3 a₂.heap.owns
    obtain ⟨hstack, -⟩ := stack_of_addTask h3 ((hc.cons stack).ne ho2) a₂.heap.owns
    refine ⟨(a₁.trans a₂).trans a₃, fun _ => ?_⟩
    rw [hstack, ← alignedSize_stack]
    exact a₃.heap.block _ _ hb₂

/-- The address `a` is on the kernel stack of the task `t`, which is not the first one. -/
def OnStack (k : Kernel) (t a : ℕ) : Prop := (k.tasks t).kernelStackBottom ≤ a ∧
  a < (k.tasks t).kernelStackBottom + TASK_STACK_SIZE.toNat

/-- The kernel stack of `t` is a block of the heap, and the directory of `t` has its tables. -/
structure StackOk (k : Kernel) (t : ℕ) : Prop where
  block : HasBlock k.heap (k.tasks t).kernelStackBottom TASK_STACK_SIZE.toNat
  slots : ∀ a, k.OnStack t a →
    present (k.machine.frames (frameOf (k.tasks t).cr3) (a / 2 ^ 22)) = true

/-- The heap is mapped in the directories in `D'` now, and still is in those in `D`. -/
structure Opened (img : Image) (D D' : Set ℕ) (k k' : Kernel) : Prop where
  shares : Shares img k'.machine D' k'.heap.heapCurrentEnd
  added : TablesAdded img D k.machine k'.machine

namespace Opened

theorem freePage (h : Opened img D D' k k') (ptr : UInt32) :
    Opened img D D' k (k'.freePage ptr) :=
  ⟨h.shares.of_frames rfl, h.added.stay, h.added.others⟩

theorem kfree (h : Opened img D D' k k') (p : ℕ) : Opened img D D' k (k'.kfree p) := by
  refine ⟨?_, h.added⟩
  show Shares img k'.machine D' (Heap.kfree k'.heap p).heapCurrentEnd
  rw [heapCurrentEnd_kfree]
  exact h.shares

theorem trans {D'' : Set ℕ} (h : Opened img D D' k k') (h' : Opened img D' D'' k' k'')
    (hD : D ⊆ D') (hcr3 : k'.machine.cr3 = k.machine.cr3) : Opened img D D'' k k'' :=
  ⟨h'.shares, h.added.trans (h'.added.mono hD) hcr3⟩

end Opened

/-- The block of a stack is below the end of the heap, so that it has tables. -/
theorem Spaced.slot_of_block {p n a : ℕ} (h : Spaced img k ρ D) (hb : HasBlock k.heap p n)
    (h1 : p ≤ a) (h2 : a < p + n) : IsHeapSlot (a / 2 ^ 22) ∧
      present (k.machine.frames img.pageDirectory (a / 2 ^ 22)) = true := by
  obtain ⟨hge, hle, hmax⟩ := hb.bounds
  exact ⟨Shares.heapSlot (hge.trans h1) (h2.trans_le (hle.trans hmax)),
    (h.shares.mapped a (hge.trans h1) (h2.trans_le hle)).1⟩

theorem keeps_newAddressSpace {stack cr3 : UInt32} {m : Machine}
    (hm : k.newAddressSpace img stack = some (cr3, m)) (hcur : k.current.cr3 = k.machine.cr3) :
    Keeps k.machine m := by
  obtain ⟨⟨c, m₁⟩, hc, hm⟩ := Option.bind_eq_some_iff.1 hm
  obtain ⟨m₂, hs, hm⟩ := Option.bind_eq_some_iff.1 hm
  obtain ⟨m₃, hmap, hm⟩ := Option.bind_eq_some_iff.1 hm
  obtain ⟨m₄, hs', hm⟩ := Option.bind_eq_some_iff.1 hm
  cases hm
  obtain ⟨-, rfl⟩ := vmmSwitchPageDirectory_eq hs
  obtain ⟨-, rfl⟩ := vmmSwitchPageDirectory_eq hs'
  have hk := keeps_vmmCreatePageDirectory hc
  exact hk.trans ((keeps_vmmMapPage hmap).within (hk.cr3.trans hcur.symm))

/-! ### User tasks -/

/-- The ways that `create_user_task` can go. -/
inductive UserTask (img : Image) (k : Kernel) : ℕ → Kernel → Prop
  | noPage {stack : ℕ} {page : UInt32} {k₁ : Kernel} {m₂ : Machine} :
      k.kmalloc img TASK_STACK_SIZE = some (stack, k₁) → k₁.machine.allocPage = (page, m₂) →
      page = 0 → UserTask img k 0
        (if stack ≠ 0 then ({ k₁ with machine := m₂ } : Kernel).kfree stack
          else { k₁ with machine := m₂ })
  | noStack {page : UInt32} {k₁ : Kernel} {m₂ : Machine} :
      k.kmalloc img TASK_STACK_SIZE = some (0, k₁) → k₁.machine.allocPage = (page, m₂) →
      UserTask img k 0 (({ k₁ with machine := m₂ } : Kernel).freePage page)
  | noTask {stack : ℕ} {page : UInt32} {k₁ k₃ : Kernel} {m₂ : Machine} :
      k.kmalloc img TASK_STACK_SIZE = some (stack, k₁) → k₁.machine.allocPage = (page, m₂) →
      stack ≠ 0 → ({ k₁ with machine := m₂ } : Kernel).kmalloc img TASK_SIZE = some (0, k₃) →
      UserTask img k 0 ((k₃.kfree stack).freePage page)
  | task {stack t : ℕ} {page cr3 : UInt32} {k₁ k₃ k' : Kernel} {m₂ m₄ : Machine} :
      k.kmalloc img TASK_STACK_SIZE = some (stack, k₁) → k₁.machine.allocPage = (page, m₂) →
      stack ≠ 0 → ({ k₁ with machine := m₂ } : Kernel).kmalloc img TASK_SIZE = some (t, k₃) →
      t ≠ 0 → k₃.newAddressSpace img page = some (cr3, m₄) →
      ({ k₃ with machine := m₄ } : Kernel).addTask img t stack page cr3 true = some k' →
      UserTask img k t k'

theorem userTask_of_createUserTask {t : ℕ} (hk : k.createUserTask img = some (t, k')) :
    UserTask img k t k' := by
  obtain ⟨⟨stack, k₁⟩, h1, h⟩ := Option.bind_eq_some_iff.1 hk
  obtain ⟨page, m₂, ha⟩ : ∃ page m, k₁.machine.allocPage = (page, m) := ⟨_, _, rfl⟩
  dsimp only at h
  rw [ha] at h
  dsimp only at h
  by_cases h0 : stack = 0 ∨ page = 0
  · rw [if_pos h0] at h
    cases h
    by_cases hpage : page = 0
    · rw [if_neg (not_not.2 hpage)]
      exact .noPage h1 ha hpage
    · obtain rfl := h0.resolve_right hpage
      rw [if_pos hpage, if_neg (not_not.2 rfl)]
      exact .noStack h1 ha
  rw [if_neg h0] at h
  rw [not_or] at h0
  obtain ⟨⟨t', k₃⟩, h2, h⟩ := Option.bind_eq_some_iff.1 h
  dsimp only at h
  split_ifs at h with ht
  · cases h
    subst ht
    exact .noTask h1 ha h0.1 h2
  · obtain ⟨⟨cr3, m₄⟩, h3, h⟩ := Option.bind_eq_some_iff.1 h
    obtain ⟨k₅, h4, h⟩ := Option.bind_eq_some_iff.1 h
    cases h
    exact .task h1 ha h0.1 h2 ht h3 h4

theorem UserTask.enlarges {t : ℕ} (hk : UserTask img k t k') (ho : Owns k.heap []) :
    Enlarges k.heap k'.heap := by
  cases hk with
  | @noPage stack page k₁ m₂ h1 ha hpage =>
      obtain ⟨a₁, hb₁⟩ := Allocates.kmalloc h1 ho
      split_ifs with h0
      · exact a₁.heap.kfree (kmalloc_live ho h1).2 (hb₁ h0).live
      · exact a₁.heap
  | noStack h1 => exact (Allocates.kmalloc h1 ho).1.heap
  | @noTask stack page k₁ k₃ m₂ h1 ha h0 h2 =>
      obtain ⟨a₁, hb₁⟩ := Allocates.kmalloc h1 ho
      obtain ⟨a₃, -⟩ := @Allocates.kmalloc img { k₁ with machine := m₂ } _ _ _ h2 a₁.heap.owns
      have hb₃ := a₃.heap.block _ _ (hb₁ h0)
      exact Enlarges.kfree (a₁.heap.trans a₃.heap) (kmalloc_live ho h1).2 hb₃.live
  | @task stack t page cr3 k₁ k₃ k' m₂ m₄ h1 ha h0 h2 ht h3 h4 =>
      obtain ⟨a₁, -⟩ := Allocates.kmalloc h1 ho
      obtain ⟨a₃, -⟩ := @Allocates.kmalloc img { k₁ with machine := m₂ } _ _ _ h2 a₁.heap.owns
      exact (a₁.heap.trans a₃.heap).trans (Allocates.addTask h4 a₃.heap.owns).heap

/-- The kernel stack, the page for the user stack and the object. -/
theorem Spaced.userTask {stack t : ℕ} {page : UInt32} {k₁ k₃ : Kernel} {m₂ : Machine}
    (hs : Spaced img k ρ D) (h1 : k.kmalloc img TASK_STACK_SIZE = some (stack, k₁))
    (ha : k₁.machine.allocPage = (page, m₂))
    (h2 : ({ k₁ with machine := m₂ } : Kernel).kmalloc img TASK_SIZE = some (t, k₃))
    (ho : k₃.machine.outOfMemory = false)
    (hr : k₃.heap.heapCurrentEnd ≠ k.heap.heapCurrentEnd → Extensible img k) :
    Advances img D k k₃ ∧ ∃ f ρ₃, page = frameAddr f ∧ f < 2 ^ 20 ∧ ρ₃ f = some .reserved ∧
      Spaced img k₃ ρ₃ D := by
  obtain ⟨a₁, -⟩ := Allocates.kmalloc h1 hs.owns
  obtain ⟨a₃, -⟩ := @Allocates.kmalloc img { k₁ with machine := m₂ } _ _ _ h2 a₁.heap.owns
  have ho₂ : m₂.outOfMemory = false := a₃.keeps.outOfMemory ho
  have hle₁ := a₁.heap.le
  have hle₃ : k₁.heap.heapCurrentEnd ≤ k₃.heap.heapCurrentEnd := a₃.heap.le
  obtain ⟨⟨ρ₁, hs₁, -⟩, adv₁⟩ := a₁.spaced ((Keeps.of_allocPage ha).outOfMemory ho₂)
    (fun hne => hr (by omega)) ρ D hs
  obtain ⟨f, hf, hlt, hs₂, adv₂⟩ := hs₁.allocPage ha ho₂
  have adv : Advances img D k { k₁ with machine := m₂ } := adv₁.trans adv₂
  obtain ⟨⟨ρ₃, hs₃, hg⟩, adv₃⟩ := a₃.spaced ho
    (fun hne => adv.extensible (hr (by dsimp only at hne; omega))) _ D hs₂
  exact ⟨adv.trans adv₃, f, ρ₃, hf, hlt, hg.of_some hs₂.layout.sound (Ledger.give_self ..), hs₃⟩

/-- A user task gets a directory, in which its stack has a table. -/
theorem Spaced.createUserTask {t : ℕ} {ptrs : List ℕ} (hs : Spaced img k ρ D)
    (hk : UserTask img k t k') (hc : k.CurrentHeld ptrs) (ho : Owns k.heap ptrs)
    (hcur : k.current.cr3 = k.machine.cr3) (hclean : Clean k'.machine)
    (hr : k'.heap.heapCurrentEnd ≠ k.heap.heapCurrentEnd → Extensible img k) :
    t = 0 ∧ Opened img D D k k' ∨
      t ≠ 0 ∧ Opened img D (insert (frameOf (k'.tasks t).cr3) D) k k' ∧ StackOk k' t := by
  cases hk with
  | @noPage stack page k₁ m₂ h1 ha hpage =>
      subst hpage
      have hout := outOfMemory_of_allocPage ha
      have hout' := hclean.outOfMemory
      split_ifs at hout' <;> exact absurd (hout'.symm.trans hout) (by decide)
  | @noStack page k₁ m₂ h1 ha =>
      obtain ⟨a₁, -⟩ := Allocates.kmalloc h1 (owns_nil ho)
      have ho₂ : m₂.outOfMemory = false := hclean.outOfMemory
      obtain ⟨⟨ρ₁, hs₁, -⟩, adv₁⟩ :=
        a₁.spaced ((Keeps.of_allocPage ha).outOfMemory ho₂) hr ρ D hs
      obtain ⟨f, -, -, hs₂, adv₂⟩ := hs₁.allocPage ha ho₂
      have hop : Opened img D D k { k₁ with machine := m₂ } :=
        ⟨hs₂.shares, (adv₁.trans adv₂).added⟩
      exact Or.inl ⟨rfl, hop.freePage page⟩
  | @noTask stack page k₁ k₃ m₂ h1 ha h0 h2 =>
      obtain ⟨hadv, f, ρ₃, -, -, -, hs₃⟩ := hs.userTask h1 ha h2 hclean.outOfMemory
        (fun hne => hr (by
          show (Heap.kfree k₃.heap stack).heapCurrentEnd ≠ _
          rw [heapCurrentEnd_kfree]
          exact hne))
      have hop : Opened img D D k k₃ := ⟨hs₃.shares, hadv.added⟩
      exact Or.inl ⟨rfl, (hop.kfree stack).freePage page⟩
  | @task stack t page cr3 k₁ k₃ k' m₂ m₄ h1 ha h0 h2 ht h3 h4 =>
      obtain ⟨a₁, hb₁⟩ := Allocates.kmalloc h1 (owns_nil ho)
      obtain ⟨heap₁, machine₁, rfl, -, hres1⟩ := kmalloc_cases h1 ho
      obtain ⟨he, -⟩ | ⟨-, -, ho1⟩ := hres1
      · exact absurd he h0
      obtain ⟨a₃, -⟩ := Allocates.kmalloc h2 a₁.heap.owns
      obtain ⟨heap₃, machine₃, rfl, -, hres3⟩ := kmalloc_cases h2 ho1
      obtain ⟨he, -⟩ | ⟨-, -, ho3⟩ := hres3
      · exact absurd he ht
      have hb₃ := a₃.heap.block _ _ (hb₁ h0)
      have a₅ := Allocates.addTask h4 a₃.heap.owns
      obtain ⟨hstack, hcr3⟩ := stack_of_addTask h4 ((hc.cons stack).ne ho3) a₃.heap.owns
      have hclean₄ : Clean m₄ := a₅.keeps.clean hclean
      have hk₃ : machine₃.cr3 = k.machine.cr3 :=
        a₃.keeps.cr3.trans ((Keeps.of_allocPage ha).cr3.trans a₁.keeps.cr3)
      have hcur₃ : k.current.cr3 = machine₃.cr3 := hcur.trans hk₃.symm
      have hclean₃ := (keeps_newAddressSpace h3 hcur₃).clean hclean₄
      have hle₃ : k.heap.heapCurrentEnd ≤ heap₃.heapCurrentEnd := (a₁.heap.trans a₃.heap).le
      have hle₅ : heap₃.heapCurrentEnd ≤ k'.heap.heapCurrentEnd := a₅.heap.le
      obtain ⟨hadv₃, f, ρ₃, rfl, hlt, hf, hs₃⟩ := hs.userTask h1 ha h2 hclean₃.outOfMemory
        (fun hne => hr (by dsimp only at hne; omega))
      obtain ⟨⟨ρ₄, hs₄⟩, hadv₄, hcopied⟩ := hs₃.newAddressSpace hf hlt h3 hcur₃ hclean₄
      have hadv := hadv₃.trans hadv₄
      obtain ⟨⟨ρ₅, hs₅, -⟩, hadv₅⟩ := a₅.spaced hclean.outOfMemory
        (fun hne => hadv.extensible (hr (by dsimp only at hne; omega))) ρ₄ _ hs₄
      have hop : Opened img D (insert (frameOf cr3) D) k k' :=
        ⟨hs₅.shares, hadv.added.trans (hadv₅.added.mono (Set.subset_insert ..)) hadv.cr3⟩
      refine Or.inr ⟨ht, hcr3.symm ▸ hop, ?_, fun a ha => ?_⟩
      · rw [hstack, ← alignedSize_stack]
        exact a₅.heap.block _ _ hb₃
      · unfold OnStack at ha
        rw [hstack, ← alignedSize_stack] at ha
        obtain ⟨hslot, hp⟩ := hs₃.slot_of_block hb₃ ha.1 ha.2
        have hp₄ := hcopied _ hslot hp
        rw [hcr3, hadv₅.added.stay _ (Set.mem_insert ..) _ hslot hp₄]
        exact hp₄

/-! ### Programs -/

theorem heapKept_mapCode {m m' : Machine} {n d : ℕ} (hn : n ≤ 0x20000) (h : Vmm.Layout img m ρ)
    (hd : ρ d = some .directory) (hcr3 : frameOf m.cr3 = d) (hm : mapCode img m n = some m')
    (ho : m'.outOfMemory = false) : HeapKept img m ρ m' := by
  induction n generalizing m' with
  | zero =>
      cases hm
      exact .of_frames rfl
  | succ n ih =>
      rw [mapCode_succ] at hm
      obtain ⟨s, hs, hm⟩ := Option.bind_eq_some_iff.1 hm
      obtain ⟨page, s₁, ha⟩ : ∃ page s₁, s.allocPage = (page, s₁) := ⟨_, _, rfl⟩
      rw [ha] at hm
      dsimp only at hm
      have hka := Keeps.of_allocPage ha
      have ho₁ := (keeps_vmmMapPage hm).outOfMemory ho
      have ho₀ := hka.outOfMemory ho₁
      have hframes : s₁.frames = s.frames := congrArg (fun a => a.2.frames) ha.symm
      have hcr₁ : frameOf s₁.cr3 = d := by
        rw [hka.cr3, (keeps_mapCode hs).cr3, hcr3]
      obtain ⟨ρ₁, hc, -⟩ := codeMapped (by omega) h hd hcr3 hs ho₀
      have hd₁ : ρ₁ d = some .directory := hc.gains.of_some h.sound hd
      obtain ⟨f, rfl, -, -, hl₁, hext⟩ := hc.layout.allocPage (u := .page d) ha ho₁ rfl (by simp)
        (by
          rintro e he
          cases he
          exact Or.inr hd₁)
      obtain ⟨hlo, hhi⟩ := pdIdx_code (n := n * 4096) (by omega) (codePage_eq n)
      have hmap : HeapKept img s₁ (ρ₁.give f (.page d)) m' := by
        refine .of_mapPage hl₁ ?_ (by omega) (by omega) hm ho
        rw [hcr₁]
        exact hc.layout.isDirectory hext (Or.inr hd₁)
      have hstep : HeapKept img s ρ₁ m' :=
        HeapKept.trans (HeapKept.of_frames hframes) hmap fun g u hu _ =>
          hext.of_some hc.layout.sound hu
      exact (ih (by omega) hs ho₀).trans hstep fun g u hu _ => hc.gains.of_some h.sound hu

theorem heapKept_copyCode {m m' : Machine} {src : ℕ → UInt8} {n d : ℕ} (hn : n ≤ 0x20000000)
    (h : Vmm.Layout img m ρ) (hd : ρ d = some .directory) (hcr3 : frameOf m.cr3 = d)
    (hm : copyCode m src n = some m') : HeapKept img m ρ m' := by
  refine (copyCode_induction
    (P := fun s => (frameOf s.cr3 = d ∧ Vmm.Layout img s ρ) ∧ HeapKept img m ρ s)
    (Q := fun f => ρ f = some (.page d)) ?_ ?_ ⟨⟨hcr3, h⟩, .of_frames rfl⟩ hm).2
  · rintro i hi s f ⟨⟨hcr, hl⟩, -⟩ ht
    exact pageUse_code hl (by omega) hd hcr ht
  · rintro s f x b ⟨⟨hcr, hl⟩, hk⟩ hf
    have hstep : HeapKept img s ρ (storeByte s f x b) := by
      refine .of_leaves hl fun g hg => ?_
      have hne : g ≠ f := by
        rintro rfl
        exact hg (.of_page hf)
      funext j
      unfold storeByte
      rw [Machine.frames_setWord, if_neg fun e => hne e.1]
    exact ⟨⟨hcr, hl.setWord hf (by simp) fun v hv _ => by cases hv⟩,
      hk.trans hstep fun _ _ hu _ => hu⟩

/-- Loading a program leaves the tables of the heap alone. -/
theorem Loaded.heapKept {m m' : Machine} {current cr3 size : UInt32} {d : ℕ}
    (hl : Loaded img current cr3 size m m') (h : Vmm.Layout img m ρ)
    (hd : ρ d = some .directory) (hcr3 : cr3 = frameAddr d)
    (hno : ∀ g, ρ g ≠ some (.table d 256))
    (hs : alignedSize size ≤ HEAP_MAX_ADDR - HEAP_START) (ho : m'.outOfMemory = false) :
    HeapKept img m ρ m' := by
  obtain @⟨m₁, m₂, src, hmap, hcopy, rfl⟩ := hl
  have hfr : frameOf cr3 = d := by rw [hcr3, frameOf_frameAddr (h.space d (Or.inr hd)).lt]
  have h₀ : Vmm.Layout img { m with cr3 := cr3 } ρ := h.of_frames rfl rfl
  have ho₁ := (keeps_copyCode hcopy).outOfMemory ho
  obtain ⟨hsize, hpages⟩ := codeSize_le h₀ hd hfr hno hs hmap hcopy
  obtain ⟨ρ₁, hl₁, hext⟩ := layout_mapCode hpages h₀ hd hfr hmap ho₁
  have hold : ∀ g u, ρ g = some u → ρ₁ g = some u := fun g u => hext.of_some h₀.sound
  have h₁ := heapKept_mapCode hpages h₀ hd hfr hmap ho₁
  have h₂ : HeapKept img m₁ ρ₁ m₂ := heapKept_copyCode hsize hl₁ (hold d _ hd)
    (by rw [(keeps_mapCode hmap).cr3]; exact hfr) hcopy
  have h₃ := h₁.trans h₂ fun g u hu _ => hold g u hu
  exact ⟨h₃.slots, h₃.tables⟩

theorem enlarges_createUserProcess {t : ℕ} {file : Option Program} {ptrs : List ℕ}
    (hk : k.createUserProcess img file = some (t, k')) (ho : Owns k.heap ptrs) :
    Enlarges k.heap k'.heap := by
  have ho' := owns_nil ho
  cases file with
  | none =>
      cases hk
      exact .refl ho'
  | some file =>
      have hbuffer : ∀ {buf k₁ k₂} {u : ℕ}, k.kmalloc img file.size = some (buf, k₁) → buf ≠ 0 →
          k₁.createUserTask img = some (u, k₂) → Enlarges k.heap (Heap.kfree k₂.heap buf) := by
        intro buf k₁ k₂ u h1 h0 h2
        obtain ⟨a₁, hb₁⟩ := Allocates.kmalloc h1 ho'
        have hen := (userTask_of_createUserTask h2).enlarges a₁.heap.owns
        exact (a₁.heap.trans hen).kfree (kmalloc_live ho h1).2 (hen.block _ _ (hb₁ h0)).live
      by_cases ht : t = 0
      · subst ht
        obtain h1 | ⟨buf, k₁, k₂, h1, h0, h2, rfl⟩ := createUserProcess_zero hk
        · exact (Allocates.kmalloc h1 ho').1.heap
        · exact hbuffer h1 h0 h2
      · obtain ⟨buf, k₁, k₂, m₁, m₂, h1, h0, h2, -, -, rfl⟩ := createUserProcess_loaded hk ht
        have he := hbuffer h1 h0 h2
        exact he

/-- The buffer for the program, and then the task. -/
theorem Spaced.bufferAndTask {buf t : ℕ} {size : UInt32} {k₁ k₂ : Kernel} {ptrs : List ℕ}
    (hs : Spaced img k ρ D) (h1 : k.kmalloc img size = some (buf, k₁)) (h0 : buf ≠ 0)
    (h2 : k₁.createUserTask img = some (t, k₂)) (hc : k.CurrentHeld ptrs) (ho : Owns k.heap ptrs)
    (hcur : k.current.cr3 = k.machine.cr3) (hclean : Clean k₂.machine)
    (hr : k₂.heap.heapCurrentEnd ≠ k.heap.heapCurrentEnd → Extensible img k) :
    (∃ ρ₁, Spaced img k₁ ρ₁ D) ∧ (t = 0 ∧ Opened img D D k k₂ ∨
      t ≠ 0 ∧ Opened img D (insert (frameOf (k₂.tasks t).cr3) D) k k₂ ∧ StackOk k₂ t) := by
  obtain ⟨a₁, -⟩ := Allocates.kmalloc h1 (owns_nil ho)
  obtain ⟨heap₁, machine₁, rfl, -, hres1⟩ := kmalloc_cases h1 ho
  obtain ⟨he, -⟩ | ⟨-, -, ho1⟩ := hres1
  · exact absurd he h0
  have hc₁ : CurrentHeld { k with heap := heap₁, machine := machine₁ } (buf :: ptrs) := hc.cons buf
  have hcur₁ : k.current.cr3 = machine₁.cr3 := hcur.trans a₁.keeps.cr3.symm
  have hkeeps : Keeps machine₁ k₂.machine := by
    obtain ⟨-, -, -, ha⟩ | ⟨-, -, _, _, _, -, -, hsp⟩ := createUserTask_cases h2 hc₁ ho1
    · exact ha.keeps
    · exact hsp.keeps hcur₁.symm
  have hu := userTask_of_createUserTask h2
  have hle₁ : k.heap.heapCurrentEnd ≤ heap₁.heapCurrentEnd := a₁.heap.le
  have hle₂ : heap₁.heapCurrentEnd ≤ k₂.heap.heapCurrentEnd := (hu.enlarges a₁.heap.owns).le
  obtain ⟨⟨ρ₁, hs₁, -⟩, adv₁⟩ := a₁.spaced (hkeeps.outOfMemory hclean.outOfMemory)
    (fun hne => hr (by dsimp only at hne; omega)) ρ D hs
  have hop₁ : Opened img D D k { k with heap := heap₁, machine := machine₁ } :=
    ⟨hs₁.shares, adv₁.added⟩
  refine ⟨⟨ρ₁, hs₁⟩, ?_⟩
  obtain ⟨rfl, hop⟩ | ⟨ht, hop, hok⟩ := hs₁.createUserTask hu hc₁ ho1 hcur₁ hclean
    (fun hne => adv₁.extensible (hr (by dsimp only at hne; omega)))
  · exact Or.inl ⟨rfl, hop₁.trans hop subset_rfl adv₁.cr3⟩
  · exact Or.inr ⟨ht, hop₁.trans hop subset_rfl adv₁.cr3, hok⟩

/-- The tables of the heap are left alone, and a buffer is given back. -/
theorem StackOk.kept {t : ℕ} (h : StackOk k t) (hd : IsDirectory img ρ (frameOf (k.tasks t).cr3))
    (hk : HeapKept img k.machine ρ k'.machine) (hp : Live k.heap p)
    (hne : (k.tasks t).kernelStackBottom ≠ p) (hheap : k'.heap = Heap.kfree k.heap p)
    (hstack : (k'.tasks t).kernelStackBottom = (k.tasks t).kernelStackBottom)
    (hcr3 : (k'.tasks t).cr3 = (k.tasks t).cr3) : StackOk k' t := by
  refine ⟨?_, fun a ha => ?_⟩
  · rw [hheap, hstack]
    exact h.block.kfree hp hne
  · unfold OnStack at ha
    rw [hstack] at ha
    obtain ⟨hge, hle, hmax⟩ := h.block.bounds
    rw [hcr3, hk.slots _ hd _ (Shares.heapSlot (hge.trans ha.1) (ha.2.trans_le (hle.trans hmax)))]
    exact h.slots a ha

/-- A program is loaded into the new space. -/
theorem Spaced.loadProgram {t : ℕ} {file : Program} {ptrs : List ℕ} (hs : Spaced img k ρ D)
    (hk : k.createUserProcess img (some file) = some (t, k')) (ht : t ≠ 0)
    (hc : k.CurrentHeld ptrs) (ho : Owns k.heap ptrs) (hcur : k.current.cr3 = k.machine.cr3)
    (hclean : Clean k'.machine)
    (hr : k'.heap.heapCurrentEnd ≠ k.heap.heapCurrentEnd → Extensible img k) :
    Opened img D (insert (frameOf (k'.tasks t).cr3) D) k k' ∧ StackOk k' t := by
  obtain ⟨buf, k₁, k₂, m₁, m₂, h1, h0, h2, hmap, hcopy, hk'⟩ := createUserProcess_loaded hk ht
  obtain ⟨a₁, hb₁⟩ := Allocates.kmalloc h1 hs.owns
  have hen := (userTask_of_createUserTask h2).enlarges a₁.heap.owns
  have hlive : Live k₂.heap buf := (hen.block _ _ (hb₁ h0)).live
  have hheap : k'.heap = Heap.kfree k₂.heap buf := by rw [hk']; rfl
  have hstack : (k'.tasks t).kernelStackBottom = (k₂.tasks t).kernelStackBottom := by
    rw [hk']
    simp [setTask]
  have hcr3 : (k'.tasks t).cr3 = (k₂.tasks t).cr3 := by
    rw [hk']
    simp [setTask]
  have hload : ∃ current, k'.machine = { m₂ with cr3 := current } := ⟨_, by rw [hk']; rfl⟩
  obtain ⟨current, hm'⟩ := hload
  have hclean₂ : Clean k₂.machine := by
    rw [hm'] at hclean
    have hk₁ := keeps_mapCode hmap
    have hk₂ := keeps_copyCode hcopy
    exact ⟨hk₁.outOfMemory (hk₂.outOfMemory hclean.outOfMemory),
      hk₁.highDirectory (hk₂.highDirectory hclean.highDirectory)⟩
  obtain ⟨⟨ρ₁, hs₁⟩, ⟨h, -⟩ | ⟨-, hop, hok⟩⟩ := hs.bufferAndTask h1 h0 h2 hc ho hcur hclean₂
    (fun hne => hr (by
      rw [hheap, heapCurrentEnd_kfree]
      exact hne))
  · exact absurd h ht
  obtain ⟨heap₁, machine₁, rfl, -, hres1⟩ := kmalloc_cases h1 ho
  obtain ⟨he, -⟩ | ⟨-, hsize, ho1⟩ := hres1
  · exact absurd he h0
  have hc₁ : CurrentHeld { k with heap := heap₁, machine := machine₁ } (buf :: ptrs) := hc.cons buf
  have hcur₁ : k.current.cr3 = machine₁.cr3 := hcur.trans a₁.keeps.cr3.symm
  obtain ⟨he, -⟩ | ⟨-, -, kstack, stack, cr3, hh, ho₂, hsp⟩ := createUserTask_cases h2 hc₁ ho1
  · exact absurd he ht
  obtain ⟨ρ₂, d, f, rfl, -, -, -, hn⟩ := hsp.newSpace hs₁.layout (hs₁.isDirectory _ hs₁.current)
    hcur₁.symm hclean₂.outOfMemory hclean₂.highDirectory
  have hkept : HeapKept img k₂.machine ρ₂ k'.machine := by
    have hl : Loaded img current (frameAddr d) file.size k₂.machine k'.machine :=
      .intro (hh.cr3 ▸ hmap) hcopy hm'
    exact hl.heapKept hn.layout hn.directory rfl hn.noCode hsize hclean.outOfMemory
  have hd : frameOf (k₂.tasks t).cr3 = d := by
    rw [hh.cr3]
    exact frameOf_frameAddr (hn.layout.space d (Or.inr hn.directory)).lt
  have hold : ∀ g ∈ D, IsDirectory img ρ₂ g := fun g hg =>
    hs₁.layout.isDirectory hn.gains (hs₁.isDirectory g hg)
  have hdirs : ∀ g ∈ insert (frameOf (k₂.tasks t).cr3) D, IsDirectory img ρ₂ g := by
    rintro g (rfl | hg)
    · rw [hd]
      exact Or.inr hn.directory
    · exact hold g hg
  have hmax : k₂.heap.heapCurrentEnd ≤ HEAP_MAX_ADDR := Owns.le_max hen.owns
  have hkeeps : k₂.machine.cr3 = k.machine.cr3 :=
    (hsp.keeps hcur₁.symm).cr3.trans a₁.keeps.cr3
  refine ⟨⟨?_, ?_⟩, hok.kept ?_ hkept hlive ?_ hheap hstack hcr3⟩
  · rw [hcr3, hheap, heapCurrentEnd_kfree]
    exact hop.shares.kept hn.layout hdirs hmax hkept
  · exact hop.added.trans (hkept.tablesAdded hold) hkeeps
  · exact hdirs _ (Set.mem_insert ..)
  · rw [hh.kernelStack]
    rintro rfl
    have hnodup := ho₂.left.nodup
    simp at hnodup

/-- A user task with its program. -/
theorem Spaced.createUserProcess {t : ℕ} {file : Option Program} {ptrs : List ℕ}
    (hs : Spaced img k ρ D) (hk : k.createUserProcess img file = some (t, k'))
    (hc : k.CurrentHeld ptrs) (ho : Owns k.heap ptrs) (hcur : k.current.cr3 = k.machine.cr3)
    (hclean : Clean k'.machine)
    (hr : k'.heap.heapCurrentEnd ≠ k.heap.heapCurrentEnd → Extensible img k) :
    t = 0 ∧ Opened img D D k k' ∨
      t ≠ 0 ∧ Opened img D (insert (frameOf (k'.tasks t).cr3) D) k k' ∧ StackOk k' t := by
  cases file with
  | none =>
      cases hk
      exact Or.inl ⟨rfl, hs.shares, .refl ..⟩
  | some file =>
      by_cases ht : t = 0
      swap
      · obtain ⟨hop, hok⟩ := hs.loadProgram hk ht hc ho hcur hclean hr
        exact Or.inr ⟨ht, hop, hok⟩
      · subst ht
        obtain h1 | ⟨buf, k₁, k₂, h1, h0, h2, rfl⟩ := createUserProcess_zero hk
        · obtain ⟨a₁, -⟩ := Allocates.kmalloc h1 hs.owns
          obtain ⟨⟨ρ₁, hs₁, -⟩, adv₁⟩ := a₁.spaced hclean.outOfMemory hr ρ D hs
          exact Or.inl ⟨rfl, hs₁.shares, adv₁.added⟩
        · obtain ⟨-, ⟨-, hop⟩ | ⟨hne, -⟩⟩ := hs.bufferAndTask h1 h0 h2 hc ho hcur hclean
            (fun hne => hr (by
              show (Heap.kfree k₂.heap buf).heapCurrentEnd ≠ _
              rw [heapCurrentEnd_kfree]
              exact hne))
          · exact Or.inl ⟨rfl, hop.kfree buf⟩
          · exact absurd rfl hne

end Kernel

end NosmeriOs.Tasks
