import NosmeriOs.HeapPages
import NosmeriOs.TaskBytes

/-! # Loading a program

`create_user_process` creates a task and copies the program into pages of its space.

* `TaskProvided` and `Provided`: no allocation of `create_user_task` or `create_user_process`
  fails.  Then the calls return (`createUserTask_returns`, `createUserProcess_returns`).
* `Calm.provided`: that is so as long as the heap has room and frames below 4 MB are free.
* `createUserProcess_placed`: the new task has the program in its space (`Placed`). -/

namespace NosmeriOs.Tasks

open Vmm Vfs Heap Ledgers

/-! ### No allocation fails -/

/-- `Q` holds of the result, if the call returns. -/
def Ensures {α : Type} (x : Option α) (Q : α → Prop) : Prop := ∀ a, x = some a → Q a

theorem Open.clean {img : Image} {m : Machine} {n top : ℕ} (h : Open img m n top) : Clean m :=
  ⟨h.outOfMemory, h.highDirectory⟩

theorem Gives.ensures {α : Type} {x : Option α} {P Q : α → Prop} (h : Gives x P)
    (hpq : ∀ a, P a → Q a) : Ensures x Q := by
  obtain ⟨a, rfl, ha⟩ := h
  rintro b ⟨⟩
  exact hpq a ha

namespace Kernel

/-- In `create_user_task` no allocation fails, and the new directory is below 4 MB. -/
def TaskProvided (img : Image) (k : Kernel) : Prop :=
  Ensures (k.kmalloc img TASK_STACK_SIZE) fun a =>
    a.1 ≠ 0 ∧ Clean a.2.machine ∧ a.2.machine.allocPage.1 ≠ 0 ∧
    Ensures ({ a.2 with machine := a.2.machine.allocPage.2 }.kmalloc img TASK_SIZE) fun b =>
      b.1 ≠ 0 ∧ Clean b.2.machine ∧
      b.2.machine.allocPage.1 ≠ 0 ∧ b.2.machine.allocPage.1 < 0x400000 ∧
      Ensures (b.2.newAddressSpace img a.2.machine.allocPage.1) fun c => Clean c.2

/-- In `create_user_process` no allocation fails, for a file of this size. -/
def Provided (img : Image) (k : Kernel) (size : UInt32) : Prop :=
  Ensures (k.kmalloc img size) fun a =>
    a.1 ≠ 0 ∧ Clean a.2.machine ∧ a.2.TaskProvided img ∧
    Ensures (a.2.createUserTask img) fun b =>
      Clean b.2.machine ∧ ∀ n ≤ pageCnt size,
        Ensures (mapCode img { b.2.machine with cr3 := (b.2.tasks b.1).cr3 } n) fun m => Clean m

/-- Calls of the heap return. -/
structure Working (img : Image) (k : Kernel) : Prop where
  machine : Workable img k.machine
  heap : Owns k.heap []

variable {img : Image} {k k' : Kernel} {m m' : Machine} {ρ : Ledger ℕ Use} {d f n : ℕ}
  {buffers l : List ℕ}

theorem workable_of_layout (h : Layout img m ρ) (hd : IsDirectory img ρ (frameOf m.cr3)) :
    Workable img m := by
  refine ⟨h.pages, h.space _ hd, fun hf => ?_, h.directory_ne_zero hd, fun i hi hp => ?_⟩
  · exact h.ne_free (h.pages.isFree hf) hd rfl
  · unfold IsHeapSlot at hi
    exact h.ne_directory (h.table _ hd i (by omega) (by omega) hp) (tableUse_ne_directory _ _) hd

theorem owns_nil {h : State} {ptrs : List ℕ} (ho : Owns h ptrs) : Owns h [] :=
  ho.of_subset List.nodup_nil (List.nil_subset _)

namespace Working

theorem kmalloc (h : k.Working img) (bytes : UInt32) :
    Gives (k.kmalloc img bytes) fun a => a.2.Working img := by
  obtain ⟨m, hm, hw⟩ := h.machine.kmalloc_pager h.heap bytes
  have ho : Owns (Heap.kmalloc (growHeap img) bytes k.heap (some k.machine)).2.1 [] := by
    obtain ⟨-, ho⟩ | ⟨-, -, ho⟩ := h.heap.kmalloc (growHeap img) bytes (some k.machine)
    · exact ho
    · exact owns_nil ho
  obtain ⟨p, heap, s, he⟩ : ∃ p heap s,
      Heap.kmalloc (growHeap img) bytes k.heap (some k.machine) = (p, heap, s) := ⟨_, _, _, rfl⟩
  rw [he] at hm ho
  cases hm
  refine ⟨(p, { k with heap := heap, machine := m }), ?_, hw, ho⟩
  unfold Kernel.kmalloc
  rw [he]

theorem createFile (h : k.Working img) (type : FileType) (ops : FileOps) :
    Gives (k.createFile img type ops) fun a => a.2.Working img := by
  unfold Kernel.createFile
  refine (h.kmalloc FILE_SIZE).bind fun a ha => ?_
  exact ⟨_, rfl, ha.machine, ha.heap⟩

/-- The descriptors are there whether or not there is memory for them. -/
theorem initTaskFds (h : k.Working img) (t : ℕ) :
    Gives (k.initTaskFds img t) fun k' => k'.Working img := by
  unfold Kernel.initTaskFds
  dsimp only
  refine Gives.bind (createFile (by exact ⟨h.machine, h.heap⟩) _ _) ?_
  rintro ⟨f₀, k₁⟩ h1
  refine Gives.bind (createFile (by exact ⟨h1.machine, h1.heap⟩) _ _) ?_
  rintro ⟨f₁, k₂⟩ h2
  refine Gives.bind (createFile (by exact ⟨h2.machine, h2.heap⟩) _ _) ?_
  rintro ⟨f₂, k₃⟩ h3
  exact ⟨_, rfl, h3.machine, h3.heap⟩

theorem addTask (h : k.Working img) (t kernelStackMem : ℕ) (userStackMem cr3 : UInt32)
    (isUser : Bool) :
    Gives (k.addTask img t kernelStackMem userStackMem cr3 isUser) fun k' => k'.Working img := by
  unfold Kernel.addTask
  dsimp only
  refine Gives.bind (initTaskFds (by exact ⟨h.machine, h.heap⟩) t) fun a ha => ?_
  exact ⟨_, rfl, ha.machine, ha.heap⟩

end Working

/-- The space of a new task is created when there is a frame for it below 4 MB; if no frame was
missing, the kernel can go on in its own. -/
theorem newAddressSpace_returns (h : Layout img k.machine ρ)
    (hd : IsDirectory img ρ (frameOf k.machine.cr3)) (hclean : Clean k.machine)
    (hcur : k.machine.cr3 = k.current.cr3) (hf : ρ f = some .reserved) (hlt : f < 2 ^ 20)
    (h0 : k.machine.allocPage.1 ≠ 0) (hlow : k.machine.allocPage.1 < 0x400000) :
    Gives (k.newAddressSpace img (frameAddr f)) fun a => Clean a.2 → Workable img a.2 := by
  obtain he | ⟨d, hfree, he⟩ := allocPage_cases h.pages
  · rw [he] at h0
    exact absurd rfl h0
  rw [he] at h0 hlow
  dsimp only at h0 hlow
  have hdlt : d < 1024 := by
    have hc : (0x400000 : UInt32).toNat = 0x400000 := rfl
    rw [UInt32.lt_iff_toNat_lt, toNat_frameAddr hfree.lt, hc] at hlow
    omega
  have hcreate := vmmCreatePageDirectory_low he hfree.ne_zero (h.writable hd hfree hdlt)
  obtain ⟨m₁, hm₁⟩ : ∃ m₁, (k.machine.take d).setFrame d
    (directoryFrame img (k.machine.take d) d) = m₁ := ⟨_, rfl⟩
  have ho₁ : m₁.outOfMemory = false := by
    rw [← hm₁]
    exact hclean.outOfMemory
  rw [hm₁] at hcreate
  obtain ⟨d', hd', -, hdf, hl₁, hext₁⟩ := h.createPageDirectory hd hcreate h0 ho₁ hlow
  obtain rfl : d = d' := by
    rw [← frameOf_frameAddr hfree.lt, hd', frameOf_frameAddr (hl₁.space d' (Or.inr
      (Ledger.give_self ..))).lt]
  obtain ⟨hmaps₁, -⟩ := h.createPageDirectory_maps hd hfree.lt hcreate h0 hlow
  obtain ⟨-, huser₁⟩ :=
    @Layout.createPageDirectory_userOnly _ _ _ _ 0 _ h hd hfree.lt hcreate h0 hlow
  have hl₂ : Layout img { m₁ with cr3 := frameAddr d } (ρ.give d .directory) :=
    hl₁.of_frames rfl rfl
  have hdir : IsDirectory img (ρ.give d .directory) (frameOf (frameAddr d)) := by
    rw [frameOf_frameAddr hfree.lt]
    exact Or.inr (Ledger.give_self ..)
  obtain ⟨m₃, hmap⟩ := hl₂.exists_mapPage hdir USER_STACK_BOTTOM (frameAddr f)
    (PAGE_USER ||| PAGE_RW ||| PAGE_PRESENT)
  have hcur0 : k.current.cr3 ≠ 0 := by
    rw [← hcur]
    intro e
    rw [e] at hd
    exact h.directory_ne_zero hd rfl
  unfold newAddressSpace vmmSwitchPageDirectory
  rw [hcreate]
  simp only [Option.bind_eq_bind, Option.bind_some, if_neg h0, hmap, if_neg hcur0]
  refine ⟨_, rfl, fun hclean₃ => ?_⟩
  -- the stack is mapped, and the directory from before is loaded again
  have hf₁ := hext₁.of_some h.sound hf
  obtain ⟨ρ₃, hl₃, -, hold, -⟩ := mapStack hl₁ (Ledger.give_self ..) hf₁ hlt hmaps₁ huser₁ hmap
    hclean₃.outOfMemory
  refine workable_of_layout (hl₃.of_frames rfl rfl) ?_
  rw [← hcur]
  refine hd.imp_right fun e => hold _ _ ?_
  have e₁ := hext₁.of_some h.sound e
  rw [Ledger.give_of_ne, e₁]
  intro e'
  rw [e', hf] at e
  cases e

/-- `create_user_task` returns a task. -/
theorem createUserTask_returns (h : Layout img k.machine ρ)
    (hd : IsDirectory img ρ (frameOf k.machine.cr3)) (hcur : k.machine.cr3 = k.current.cr3)
    (ho : Owns k.heap []) (hp : k.TaskProvided img) :
    Gives (k.createUserTask img) fun a => a.1 ≠ 0 := by
  have hw : k.Working img := ⟨workable_of_layout h hd, ho⟩
  obtain ⟨⟨kstack, k₁⟩, h1, hw₁⟩ := hw.kmalloc TASK_STACK_SIZE
  obtain ⟨hkstack, hclean₁, hstack, htask⟩ := hp _ h1
  dsimp only at hw₁ hkstack hclean₁ hstack htask
  obtain ⟨heap₁, machine₁, rfl, hg₁, -⟩ := kmalloc_cases h1 ho
  obtain ⟨ρ₁, hl₁, hext₁⟩ := hg₁.layout h hd hclean₁.outOfMemory
  -- the stack
  obtain ⟨p, m₂, halloc⟩ : ∃ p m₂, machine₁.allocPage = (p, m₂) := ⟨_, _, rfl⟩
  rw [halloc] at hstack htask
  have ho₂ : m₂.outOfMemory = false := by
    obtain he | ⟨g, -, he⟩ := allocPage_cases hl₁.pages
    · rw [he] at halloc
      cases halloc
      exact absurd rfl hstack
    · rw [he] at halloc
      cases halloc
      exact hclean₁.outOfMemory
  obtain ⟨f, rfl, hlt, -, hl₂, hext₂⟩ := hl₁.allocPage (u := .reserved) halloc ho₂ rfl (by simp)
    fun d hd => by cases hd
  have hcr₂ : m₂.cr3 = k.machine.cr3 := (Keeps.of_allocPage halloc).cr3.trans hg₁.keeps.cr3
  have hd₂ : IsDirectory img (ρ₁.give f .reserved) (frameOf m₂.cr3) := by
    rw [hcr₂]
    exact hl₁.isDirectory hext₂ (h.isDirectory hext₁ hd)
  -- the task
  have hw₂ : Working img { k with heap := heap₁, machine := m₂ } :=
    ⟨workable_of_layout hl₂ hd₂, hw₁.heap⟩
  obtain ⟨⟨t, k₃⟩, h3, hw₃⟩ := hw₂.kmalloc TASK_SIZE
  obtain ⟨ht, hclean₃, h0, hlow, hspace⟩ := htask _ h3
  dsimp only at hw₃ ht hclean₃ h0 hlow hspace
  obtain ⟨heap₃, machine₃, rfl, hg₃, -⟩ := kmalloc_cases h3 hw₁.heap
  dsimp only at hg₃ hclean₃ h0 hlow
  obtain ⟨ρ₃, hl₃, hext₃⟩ := hg₃.layout hl₂ hd₂ hclean₃.outOfMemory
  have hcr₃ : machine₃.cr3 = k.machine.cr3 := hg₃.keeps.cr3.trans hcr₂
  have hd₃ : IsDirectory img ρ₃ (frameOf machine₃.cr3) := by
    rw [hg₃.keeps.cr3]
    exact hl₂.isDirectory hext₃ hd₂
  -- the space
  obtain ⟨⟨cr3, m₄⟩, h4, hw₄⟩ := @newAddressSpace_returns img
    { k with heap := heap₃, machine := machine₃ } ρ₃ f hl₃ hd₃ hclean₃ (hcr₃.trans hcur)
    (hext₃.of_some hl₂.sound (Ledger.give_self ..)) hlt h0 hlow
  have hw₅ : Working img { k with heap := heap₃, machine := m₄ } :=
    ⟨hw₄ (hspace _ h4), hw₃.heap⟩
  obtain ⟨k₆, h6, -⟩ := hw₅.addTask t kstack (frameAddr f) cr3 true
  unfold createUserTask
  refine Gives.bind ⟨_, h1, rfl⟩ ?_
  rintro _ rfl
  dsimp only
  rw [halloc]
  dsimp only
  rw [if_neg (not_or.2 ⟨hkstack, hstack⟩)]
  refine Gives.bind ⟨_, h3, rfl⟩ ?_
  rintro _ rfl
  dsimp only
  rw [if_neg ht]
  refine Gives.bind ⟨_, h4, rfl⟩ ?_
  rintro _ rfl
  exact Gives.bind ⟨k₆, h6, rfl⟩ fun _ _ => ⟨_, rfl, ht⟩

/-- The code pages are mapped. -/
theorem mapCode_returns (hn : n ≤ 0x20000) (h : Layout img m ρ) (hd : ρ d = some .directory)
    (hcr3 : frameOf m.cr3 = d) (hclean : ∀ i ≤ n, Ensures (mapCode img m i) Clean) :
    ∃ m', mapCode img m n = some m' := by
  induction n with
  | zero => exact ⟨m, rfl⟩
  | succ n ih =>
      obtain ⟨s, hs⟩ := ih (by omega) fun i hi => hclean i (by omega)
      obtain ⟨ρ₁, hmapped, -⟩ := codeMapped (by omega) h hd hcr3 hs
        (hclean n (by omega) s hs).outOfMemory
      have hl : ∃ ρ', Layout img s.allocPage.2 ρ' ∧ ρ' d = some .directory := by
        have hd₁ := hmapped.gains.of_some h.sound hd
        obtain he | ⟨f, hf, he⟩ := allocPage_cases hmapped.layout.pages
        · rw [he]
          exact ⟨ρ₁, hmapped.layout.of_frames rfl rfl, hd₁⟩
        · obtain ⟨g, -, -, -, -, -, hl, -⟩ := hmapped.layout.alloc he
            (hclean n (by omega) s hs).outOfMemory
          rw [he]
          exact ⟨ρ₁, hl, hd₁⟩
      obtain ⟨ρ', hl, hd'⟩ := hl
      rw [mapCode_succ, hs, Option.bind_some]
      obtain ⟨p, s₁, ha⟩ : ∃ p s₁, s.allocPage = (p, s₁) := ⟨_, _, rfl⟩
      rw [ha] at hl ⊢
      apply hl.exists_mapPage
      refine Or.inr ?_
      rw [(Keeps.of_allocPage ha).cr3, (keeps_mapCode hs).cr3, hcr3]
      exact hd'

/-- The steps of `create_user_process` put together. -/
theorem createUserProcess_of_loaded {file : Program} {buf t : ℕ} {k₁ k₂ : Kernel} {m₁ m₂ : Machine}
    (h1 : k.kmalloc img file.size = some (buf, k₁)) (h0 : buf ≠ 0)
    (h2 : k₁.createUserTask img = some (t, k₂)) (ht : t ≠ 0) (hcr3 : (k₂.tasks t).cr3 ≠ 0)
    (hmap : mapCode img { k₂.machine with cr3 := (k₂.tasks t).cr3 }
      ((file.size + 4096 - 1) / 4096).toNat = some m₁)
    (hcopy : copyCode m₁ (k₂.bufferBytes file buf) file.size.toNat = some m₂)
    (hcur : k₂.current.cr3 ≠ 0) :
    ∃ k', k.createUserProcess img (some file) = some (t, k') ∧
      k'.machine = { m₂ with cr3 := k₂.current.cr3 } := by
  have hs : ∀ task : Task, task.cr3 = (k₂.tasks t).cr3 →
      (k₂.setTask t task).machine = k₂.machine ∧
      ((k₂.setTask t task).tasks t).cr3 = (k₂.tasks t).cr3 ∧
      (k₂.setTask t task).bufferBytes file buf = k₂.bufferBytes file buf ∧
      ((k₂.setTask t task).kfree buf).current.cr3 = k₂.current.cr3 := by
    intro task he
    refine ⟨rfl, ?_, rfl, ?_⟩
    · unfold setTask
      dsimp only
      rw [Function.update_self, he]
    · unfold Kernel.current Kernel.kfree setTask
      dsimp only
      rw [Function.update_apply]
      split_ifs with hcur
      · rw [he, hcur]
      · rfl
  obtain ⟨e1, e2, e3, e4⟩ := hs { k₂.tasks t with state := .sleeping, wakeTick := 0xFFFFFFFF } rfl
  generalize hk : k₂.setTask t { k₂.tasks t with state := .sleeping, wakeTick := 0xFFFFFFFF } = kS
    at e1 e2 e3 e4
  unfold createUserProcess vmmSwitchPageDirectory
  simp only [h1, h2, Option.bind_eq_bind, Option.bind_some, if_neg h0, if_neg ht, hk, e1, e2, e3,
    e4, if_neg hcr3, if_neg hcur, hmap, hcopy]
  exact ⟨_, rfl, rfl⟩

section process
variable {file : Program}

/-- `create_user_process` returns a task. -/
theorem createUserProcess_returns (hf : Frames img k ρ) (hctx : k.ContextOk)
    (hc : Consistent img k buffers l) (hcnt : file.size.toNat ≤ pageCnt file.size * 4096)
    (hpages : pageCnt file.size ≤ 0x20000) (hp : k.Provided img file.size) :
    Gives (k.createUserProcess img (some file)) fun a => a.1 ≠ 0 ∧ Clean a.2.machine := by
  have hdir := Framed.current_isDirectory hctx hc hf
  have hw : k.Working img := ⟨workable_of_layout hf.layout hdir, owns_nil hc.owns⟩
  obtain ⟨⟨buf, k₁⟩, h1, hw₁⟩ := hw.kmalloc file.size
  obtain ⟨hbuf, hclean₁, htask, hcode⟩ := hp _ h1
  dsimp only at hbuf hclean₁ htask hcode
  -- the task
  have hreturns : Gives (k₁.createUserTask img) fun a => a.1 ≠ 0 := by
    obtain ⟨heap₁, machine₁, rfl, hg₁, -⟩ := kmalloc_cases h1 hc.owns
    obtain ⟨ρ₁, hl₁, hext₁⟩ := hg₁.layout hf.layout hdir hclean₁.outOfMemory
    refine createUserTask_returns hl₁ ?_ (hg₁.keeps.cr3.trans hctx.cr3) hw₁.heap htask
    rw [hg₁.keeps.cr3]
    exact hf.layout.isDirectory hext₁ hdir
  obtain ⟨⟨t, k₂⟩, h2, ht⟩ := hreturns
  obtain ⟨hclean₂, hclean⟩ := hcode _ h2
  dsimp only at ht hclean₂ hclean
  obtain ⟨-, hcur₂, -, mA, ρA, ρ₂, d, hcr3, hdlt, hgrown, hn, -⟩ :=
    createUserTask_newSpace hf hctx hc h1 hbuf h2 ht hclean₂
  have hd : frameOf (k₂.tasks t).cr3 = d := by
    rw [hcr3]
    exact frameOf_frameAddr hdlt
  have hn' := hn.switch (k₂.tasks t).cr3
  -- its code
  obtain ⟨m₁, hmap⟩ := mapCode_returns hpages hn'.layout hn.directory hd hclean
  have hcleanm := hclean _ le_rfl m₁ hmap
  obtain ⟨ρ₁, hmapped, -⟩ := codeMapped hpages hn'.layout hn.directory hd hmap hcleanm.outOfMemory
  have hspace := hmapped.codeSpace hn' (by rw [(keeps_mapCode hmap).cr3]; exact hd) hpages
  obtain ⟨m₂, hcopy⟩ := hspace.exists_copyCode (k₂.bufferBytes file buf) hcnt
  have hcleanc := (hspace.copied hcnt hcopy).clean hcleanm
  have hne : ∀ {c : UInt32} {g : ℕ}, frameOf c = g → g ≠ 0 → c ≠ 0 := by
    rintro c g rfl hg rfl
    exact hg rfl
  have hcr3_ne : (k₂.tasks t).cr3 ≠ 0 :=
    hne hd (hn.layout.directory_ne_zero (Or.inr hn.directory))
  have hcur_ne : k₂.current.cr3 ≠ 0 := by
    rw [hcur₂, ← hctx.cr3]
    exact hne rfl (hf.layout.directory_ne_zero hdir)
  obtain ⟨k', hk, hm⟩ := createUserProcess_of_loaded h1 hbuf h2 ht hcr3_ne hmap hcopy hcur_ne
  refine ⟨(t, k'), hk, ht, ?_⟩
  rw [hm]
  exact ⟨hcleanc.outOfMemory, hcleanc.highDirectory⟩

/-! ### As long as there is room -/

/-- The first page of code is mapped by a new table. -/
theorem mapCode_of_open {n top : ℕ} (h : Open img m n top) (hp : present (m.pde 256) = false)
    (htop : n + 1 < top) : ∃ m', mapCode img m 1 = some m' ∧ Open img m' (n + 2) top := by
  obtain ⟨halloc, h'⟩ := h.take (by omega)
  have hidx : pdIdx (USER_CODE_START + UInt32.ofNat 0 * 4096) = 256 := by decide
  obtain ⟨m', hm, -, ho, -⟩ := h'.mapPage htop
    (show present ((m.take n).pde (pdIdx (USER_CODE_START + UInt32.ofNat 0 * 4096))) = false by
      rw [hidx]
      exact hp) (frameAddr n) USER_PAGE
  refine ⟨m', ?_, ho⟩
  rw [mapCode_succ, show mapCode img m 0 = some m from rfl, Option.bind_some, halloc]
  exact hm

theorem Calm.taskProvided {r top : ℕ} (h : Calm img k r n top) (hr : 1500 ≤ r) (hn : n + 2 < 1024)
    (htop : n + 2 < top) : k.TaskProvided img := by
  have hstack : alignedSize TASK_STACK_SIZE = 1024 := by decide
  have htask : alignedSize TASK_SIZE = 152 := by decide
  have hlt := h.machine.lt
  have haddr : ∀ f, 0 < f → f < 1024 → frameAddr f ≠ 0 := by
    intro f h0 hf e
    have := (frameAddr_eq_zero (by omega)).1 e
    omega
  obtain ⟨halloc, ho⟩ := h.machine.take (by omega)
  obtain ⟨halloc', -⟩ := ho.take (by omega)
  refine (kmalloc_of_room 450 h.room (by decide) (by omega)).ensures ?_
  rintro ⟨kstack, k₁⟩ ⟨hks, h1, ht1, hc1⟩
  dsimp only at hks h1 ht1 hc1 ⊢
  rw [h1.machine, halloc]
  refine ⟨hks, h.machine.clean, haddr n (by omega) (by omega), ?_⟩
  refine (kmalloc_of_room 264 (by exact h1.room) (by decide) (by omega)).ensures ?_
  rintro ⟨t, k₂⟩ ⟨ht, h2, ht2, hc2⟩
  dsimp only at ht h2 ht2 hc2 ⊢
  have hcur : k₂.current.cr3 = k₂.machine.cr3 := by
    unfold Kernel.current
    rw [ht2, hc2, h2.machine, ht1, hc1]
    exact h.cr3
  have ho2 : Open img k₂.machine (n + 1) top := by
    rw [h2.machine]
    exact ho
  have hc0 : k₂.machine.cr3 ≠ 0 := by
    rw [h2.machine]
    exact h.cr3_ne
  refine ⟨ht, ho2.clean, ?_⟩
  rw [h2.machine, halloc']
  refine ⟨haddr _ (by omega) (by omega), ?_, ?_⟩
  · have hc : (0x400000 : UInt32).toNat = 0x400000 := rfl
    rw [UInt32.lt_iff_toNat_lt, toNat_frameAddr (by omega), hc]
    omega
  · exact (newAddressSpace_of_open ho2 (by omega) (by omega) hcur hc0 _).ensures
      fun _ ha => ha.2.2.clean

theorem NewSpace.code_absent {m₀ : Machine} {ρ' : Ledger ℕ Use} (h : NewSpace img m₀ ρ m' ρ' d f) :
    present (m'.frames d 256) = false := by
  rw [← Bool.not_eq_true]
  intro hp
  exact h.noCode _ (h.layout.table d (Or.inr h.directory) 256 (by omega) (by omega) hp)

/-- The task of a program has been created, with nothing in its space but the stack. -/
structure CalmTask (img : Image) (k k₂ : Kernel) (t r n top : ℕ) : Prop where
  ne_zero : t ≠ 0
  room : Room k₂.heap r
  machine : Open img k₂.machine (n + 3) top
  cr3 : k₂.machine.cr3 = k.machine.cr3
  current : k₂.current.cr3 = k.machine.cr3
  directory : (k₂.tasks t).cr3 = frameAddr (n + 1)
  stack : (k₂.tasks t).userStackBottom = frameAddr n
  own : Open img { k₂.machine with cr3 := (k₂.tasks t).cr3 } (n + 3) top
  absent : present (Machine.pde { k₂.machine with cr3 := (k₂.tasks t).cr3 } 256) = false

theorem Calm.spawn {r top : ℕ} (r' : ℕ) (h : Calm img k r n top) (hf : Frames img k ρ)
    (hctx : k.ContextOk) (hc : Consistent img k buffers l) (file : Program)
    (h0 : file.size ≠ 0) (hr : alignedSize file.size + 1520 + r' ≤ r) (hn : n + 2 < 1024)
    (htop : n + 2 < top) : ∃ buf k₁ t k₂, k.kmalloc img file.size = some (buf, k₁) ∧ buf ≠ 0 ∧
      Calm img k₁ (r' + 1500) n top ∧ k₁.createUserTask img = some (t, k₂) ∧
      CalmTask img k k₂ t r' n top := by
  obtain ⟨⟨buf, k₁⟩, h1, hbuf, hends, htasks, hcurr⟩ :=
    @kmalloc_of_room img k r (r' + 1500) h.room file.size h0 (by omega)
  dsimp only at hbuf hends htasks hcurr
  have hcur₁ : k₁.current = k.current := by
    unfold Kernel.current
    rw [htasks, hcurr]
  have hcalm₁ : Calm img k₁ (r' + 1500) n top := by
    refine ⟨hends.room, ?_, ?_, ?_⟩
    · rw [hends.machine]
      exact h.machine
    · rw [hends.machine, hcur₁]
      exact h.cr3
    · rw [hends.machine]
      exact h.cr3_ne
  obtain ⟨⟨t, k₂⟩, h2, ht, hroom, hopen, hcr, hdir, hstack⟩ :=
    createUserTask_of_calm hcalm₁ le_rfl hn htop
  dsimp only at ht hroom hopen hcr hdir hstack
  refine ⟨buf, k₁, t, k₂, h1, hbuf, hcalm₁, h2, ?_⟩
  obtain ⟨-, hcur₂, -, mA, ρA, ρ₂, d, hcr3, hdlt, -, hspace, -⟩ :=
    createUserTask_newSpace hf hctx hc h1 hbuf h2 ht hopen.clean
  have hd : frameOf (k₂.tasks t).cr3 = d := by
    rw [hcr3]
    exact frameOf_frameAddr hdlt
  have hdn : d = n + 1 := by
    rw [← hd, hdir]
    exact frameOf_frameAddr (by omega)
  refine ⟨ht, hroom, hopen, hcr.trans (congrArg Machine.cr3 hends.machine), hcur₂.trans h.cr3, hdir,
    hstack, ?_, ?_⟩
  · refine hopen.switch ?_ ?_
    · omega
    · rw [hd]
      exact hspace.layout.space d (Or.inr hspace.directory)
  · unfold Machine.pde
    dsimp only
    rw [hd]
    exact hspace.code_absent

/-- There is room for a program of at most a page. -/
theorem Calm.provided {r top : ℕ} (h : Calm img k r n top) (hf : Frames img k ρ)
    (hctx : k.ContextOk) (hc : Consistent img k buffers l) (file : Program)
    (h0 : 0 < file.size.toNat) (hsize : file.size.toNat ≤ 4096)
    (hr : alignedSize file.size + 1520 ≤ r) (hn : n + 2 < 1024) (htop : n + 4 < top) :
    k.Provided img file.size := by
  have hne : file.size ≠ 0 := by
    intro e
    rw [e] at h0
    exact absurd h0 (by decide)
  obtain ⟨buf, k₁, t, k₂, h1, hbuf, hcalm₁, h2, hcalm₂⟩ :=
    h.spawn 0 hf hctx hc file hne hr hn (by omega)
  refine Gives.ensures ⟨_, h1, rfl⟩ ?_
  rintro _ rfl
  refine ⟨hbuf, hcalm₁.machine.clean, hcalm₁.taskProvided (by omega) hn (by omega), ?_⟩
  refine Gives.ensures ⟨_, h2, rfl⟩ ?_
  rintro _ rfl
  refine ⟨hcalm₂.machine.clean, fun i hi => ?_⟩
  rw [pageCnt_eq (by omega)] at hi
  obtain rfl | rfl : i = 0 ∨ i = 1 := by omega
  · exact Gives.ensures ⟨_, rfl, rfl⟩ fun _ he => he ▸ hcalm₂.own.clean
  · obtain ⟨m₁, hmap, hopen₁⟩ := mapCode_of_open hcalm₂.own hcalm₂.absent (by omega)
    exact Gives.ensures ⟨m₁, hmap, rfl⟩ fun _ he => he ▸ hopen₁.clean

/-! ### What the loader leaves -/

/-- The walks of a program's space: `pages` pages of code, and the stack. -/
def programWalk (stack : ℕ) (code : ℕ → ℕ) (pages v : ℕ) : Option (ℕ × UInt32) :=
  if CODE_PAGE ≤ v ∧ v < CODE_PAGE + pages then
    some (code (v - CODE_PAGE), PAGE_USER ||| PAGE_RW ||| PAGE_PRESENT)
  else if v = STACK_PAGE then some (stack, PAGE_USER ||| PAGE_RW ||| PAGE_PRESENT)
  else none

theorem ProgramSpace.walkFrom {F : ℕ → ℕ} {src : ℕ → UInt8} {m' : Machine} {pages : ℕ}
    (h : ProgramSpace m m' d f F pages src n) (hu : UserOnly m' d) {v : ℕ} (h1 : 1024 ≤ v)
    (h2 : v < 768 * 1024) : walkFrom m' d v = programWalk f F pages v := by
  rw [hu.walkFrom h1 h2]
  unfold programWalk
  split_ifs with hcode hstack
  · obtain ⟨i, rfl⟩ : ∃ i, v = CODE_PAGE + i := ⟨_, (Nat.add_sub_of_le hcode.1).symm⟩
    rw [h.code i (by omega), Nat.add_sub_cancel_left]
    rfl
  · rw [hstack, h.stack]
    rfl
  · rw [h.others v h1 h2 hstack hcode]
    rfl

end process

end Kernel

end NosmeriOs.Tasks
