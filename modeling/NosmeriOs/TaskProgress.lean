import NosmeriOs.TaskSpec
import NosmeriOs.VmmHeap

/-! # When creation succeeds

With room in the heap and free page frames below 4 MB no call stops the machine.

* `Open`: a machine whose frames from `n` to `top` are free, under a directory that maps what the
  functions of `vmm.cpp` rely on.
* `Calm`: a kernel on such a machine, with room for blocks.
* `createTask_of_calm`, `createUserTask_of_calm` and `boot_calm`. -/

namespace NosmeriOs.Tasks

open Vmm Vfs Heap

/-! ### The machine -/

/-- Frames are free from `n` to `top`. -/
structure Open (img : Image) (m : Machine) (n top : ℕ) : Prop where
  free : FreeFrom m n top
  ge : img.kernelEnd.toNat ≤ n * 4096
  lt : frameOf m.cr3 < n
  space : IsSpace img m (frameOf m.cr3)
  kernel : IsSpace img m img.pageDirectory
  low : LowMapped img m
  outOfMemory : m.outOfMemory = false
  highDirectory : m.highDirectory = false

namespace Open

variable {img : Image} {m : Machine} {n top : ℕ}

theorem lt_of_lt (h : Open img m n top) (hn : n < top) : n < 32768 :=
  h.free.total ▸ ((h.free.free n).2 ⟨le_refl n, hn⟩).1

theorem isFree (h : Open img m n top) (hn : n < top) : IsFree img m n :=
  ⟨(h.free.free n).2 ⟨le_refl n, hn⟩, (h.lt_of_lt hn).trans (by omega), h.ge⟩

theorem directory_lt (h : Open img m n top) : img.pageDirectory < n := by
  have h1 := h.ge
  have h2 := img.directory_mem.2
  omega

/-- Another machine with the same directory loaded, whose directories and low table are the
same. -/
theorem of_spaces (h : Open img m n top) {m' : Machine} {n' : ℕ} (hfree : FreeFrom m' n' top)
    (hn : n ≤ n') (hcr3 : m'.cr3 = m.cr3)
    (hspace : ∀ d, d < n → IsSpace img m d → IsSpace img m' d)
    (hlow : ∀ i, m'.frames img.firstPageTable i = m.frames img.firstPageTable i)
    (ho : m'.outOfMemory = m.outOfMemory) (hh : m'.highDirectory = m.highDirectory) :
    Open img m' n' top := by
  have hlt := h.lt
  refine ⟨hfree, h.ge.trans (Nat.mul_le_mul_right _ hn), by rw [hcr3]; omega, ?_,
    hspace _ h.directory_lt h.kernel, fun i hi => ?_, ?_, ?_⟩
  · rw [hcr3]
    exact hspace _ hlt h.space
  · rw [hlow]
    exact h.low i hi
  · rw [ho]
    exact h.outOfMemory
  · rw [hh]
    exact h.highDirectory

theorem take (h : Open img m n top) (hn : n < top) :
    m.allocPage = (frameAddr n, m.take n) ∧ Open img (m.take n) (n + 1) top := by
  have hlt := h.lt
  obtain ⟨halloc, hfree⟩ := h.free.alloc (by omega) hn
  exact ⟨halloc, h.of_spaces hfree (by omega) rfl (fun d _ hs => ⟨hs.lt, hs.low, hs.self⟩)
    (fun _ => rfl) rfl rfl⟩

/-- Another directory is loaded. -/
theorem switch (h : Open img m n top) {cr3 : UInt32} (hlt : frameOf cr3 < n)
    (hs : IsSpace img m (frameOf cr3)) : Open img { m with cr3 := cr3 } n top :=
  ⟨h.free.congr rfl, h.ge, hlt, ⟨hs.lt, hs.low, hs.self⟩,
    ⟨h.kernel.lt, h.kernel.low, h.kernel.self⟩, h.low, h.outOfMemory, h.highDirectory⟩

/-- A new table takes frame `n`; directories below stay what they are. -/
theorem mapPage (h : Open img m n top) (hn : n < top) {virtAddr : UInt32}
    (hp : present (m.pde (pdIdx virtAddr)) = false) (physAddr flags : UInt32) :
    ∃ m', vmmMapPage img m virtAddr physAddr flags = some m' ∧ m'.cr3 = m.cr3 ∧
      Open img m' (n + 1) top ∧ ∀ d, d < n → IsSpace img m d → IsSpace img m' d := by
  have hlt := h.lt
  have hmax := h.lt_of_lt hn
  have hfree := h.isFree hn
  obtain ⟨halloc, h'⟩ := h.take hn
  obtain ⟨h0, h1023⟩ := h.space.slot_ne hp
  have hmap : vmmMapPage img m virtAddr physAddr flags = _ :=
    vmmMapPage_of_absent h.space.selfMapped hp halloc rfl rfl (by omega) (by omega) physAddr flags
  -- neither entry 0 nor entry 1023 of a frame below `n` is written, nor the low table
  have hframes : ∀ g i, g ≠ n → i ≠ pdIdx virtAddr ∨ g ≠ frameOf m.cr3 ∧ g ≠ img.pageDirectory →
      ((withTable img (m.take n) virtAddr n).setWord n (ptIdx virtAddr)
        (pageEntry physAddr flags)).frames g i = m.frames g i := by
    intro g i hg hi
    rw [Machine.frames_setWord, if_neg (fun e => hg e.1), frames_withTable, if_neg hg, if_neg]
    · rfl
    · rintro ⟨e1, e2 | ⟨_, e2⟩⟩
      · exact hi.elim (fun hne => hne e1) fun hne => hne.1 e2
      · exact hi.elim (fun hne => hne e1) fun hne => hne.2 e2
  have hpages : ((withTable img (m.take n) virtAddr n).setWord n (ptIdx virtAddr)
      (pageEntry physAddr flags)).pages = (m.take n).pages := by
    unfold withTable
    dsimp only
    split_ifs <;> rfl
  have hflags : ((withTable img (m.take n) virtAddr n).setWord n (ptIdx virtAddr)
      (pageEntry physAddr flags)).outOfMemory = m.outOfMemory ∧
      ((withTable img (m.take n) virtAddr n).setWord n (ptIdx virtAddr)
        (pageEntry physAddr flags)).highDirectory = m.highDirectory := by
    unfold withTable
    dsimp only
    split_ifs <;> exact ⟨rfl, rfl⟩
  have hspace : ∀ d, d < n → IsSpace img m d →
      IsSpace img ((withTable img (m.take n) virtAddr n).setWord n (ptIdx virtAddr)
        (pageEntry physAddr flags)) d := by
    intro d hd hs
    exact isSpace_congr hs (hframes d 0 (by omega) (Or.inl (Ne.symm h0)))
      (hframes d 1023 (by omega) (Or.inl (Ne.symm h1023)))
  have hlow : ∀ i, ((withTable img (m.take n) virtAddr n).setWord n (ptIdx virtAddr)
      (pageEntry physAddr flags)).frames img.firstPageTable i = m.frames img.firstPageTable i :=
    fun i => hframes _ i (Ne.symm hfree.ne_table)
      (Or.inr ⟨ne_table_of_space h.space h.low, img.ne.symm⟩)
  exact ⟨_, hmap, by simp, h.of_spaces (h'.free.congr hpages) (by omega) (by simp) hspace hlow
    hflags.1 hflags.2, hspace⟩

/-- A new directory takes frame `n`. -/
theorem createPageDirectory (h : Open img m n top) (hn : n < 1024) (ht : n < top) :
    ∃ m', vmmCreatePageDirectory img m = some (frameAddr n, m') ∧ m'.cr3 = m.cr3 ∧
      Open img m' (n + 1) top ∧ IsSpace img m' n ∧ present (m'.frames n 767) = false ∧
      ∀ d, d < n → IsSpace img m d → IsSpace img m' d := by
  have hlt := h.lt
  have hfree := h.isFree (by omega)
  obtain ⟨halloc, h'⟩ := h.take (by omega)
  have hw : Writable img (m.take n) n :=
    ⟨h'.space, h.low, hn, by rw [Machine.cr3_take]; omega, hfree.ne_table, hfree.ne_directory⟩
  have hcreate := vmmCreatePageDirectory_low halloc (by omega) hw
  have hother : ∀ g i, g ≠ n → ((m.take n).setFrame n (directoryFrame img (m.take n) n)).frames g i
      = m.frames g i := by
    intro g i hg
    rw [Machine.frames_setFrame, if_neg hg]
    rfl
  have hself : ((m.take n).setFrame n (directoryFrame img (m.take n) n)).frames n =
      directoryFrame img (m.take n) n := by
    rw [Machine.frames_setFrame, if_pos rfl]
  have h767 : directoryFrame img (m.take n) n 767 = 0 := by
    unfold directoryFrame newDirectory
    rw [if_pos (by omega), if_neg (by omega), if_neg (by omega), if_neg (fun e => by omega)]
  have hspace : ∀ d, d < n → IsSpace img m d →
      IsSpace img ((m.take n).setFrame n (directoryFrame img (m.take n) n)) d := fun d hd hs =>
    isSpace_congr hs (hother d 0 (by omega)) (hother d 1023 (by omega))
  refine ⟨_, hcreate, rfl, ?_, ⟨by omega, ?_, ?_⟩, ?_, hspace⟩
  · exact h.of_spaces (h'.free.congr rfl) (by omega) rfl hspace
      (fun i => hother _ i (Ne.symm hfree.ne_table)) rfl rfl
  · rw [hself]
    exact h.kernel.low
  · rw [hself]
    rfl
  · rw [hself, h767]
    exact present_zero

end Open

/-! ### The kernel -/

/-- The call succeeds, and `Q` holds of its result. -/
def Gives {α : Type} (x : Option α) (Q : α → Prop) : Prop := ∃ a, x = some a ∧ Q a

theorem Gives.bind {α β : Type} {x : Option α} {f : α → Option β} {P : α → Prop} {Q : β → Prop}
    (hx : Gives x P) (hf : ∀ a, P a → Gives (f a) Q) : Gives (x >>= f) Q := by
  obtain ⟨a, rfl, ha⟩ := hx
  exact hf a ha

theorem Room.mono {h : State} {n m : ℕ} (hr : Room h n) (hm : m ≤ n) : Room h m := by
  obtain ⟨bs, d, hok, hd, hfree, hsize⟩ := hr
  exact ⟨bs, d, hok, hd, hfree, hm.trans hsize⟩

namespace Kernel

variable {img : Image} {k : Kernel} {r r' : ℕ}

/-- The machine and the tasks are as before, and there is room left. -/
structure Ends (k k' : Kernel) (r : ℕ) : Prop where
  machine : k'.machine = k.machine
  room : Room k'.heap r

theorem kmalloc_of_room (r' : ℕ) (hr : Room k.heap r) {bytes : UInt32} (h0 : bytes ≠ 0)
    (hn : r' + (alignedSize bytes + 20) ≤ r) :
    Gives (k.kmalloc img bytes) fun a => a.1 ≠ 0 ∧ Ends k a.2 r' ∧
      a.2.tasks = k.tasks ∧ a.2.currentTask = k.currentTask := by
  obtain ⟨p, heap, he, hp, hr'⟩ := hr.kmalloc (growHeap img) (some k.machine) h0 (by omega)
  refine ⟨(p, { k with heap := heap }), ?_, hp, ⟨rfl, Room.mono hr' (by omega)⟩, rfl, rfl⟩
  unfold kmalloc
  rw [he]

theorem createFile_of_room (r' : ℕ) (hr : Room k.heap r) (hn : r' + 88 ≤ r) (type : FileType)
    (ops : FileOps) : Gives (k.createFile img type ops) fun a =>
      Ends k a.2 r' ∧ a.2.tasks = k.tasks := by
  have hsize : alignedSize FILE_SIZE = 68 := by decide
  refine (kmalloc_of_room r' hr (by decide) (by rw [hsize]; exact hn)).bind fun a ha => ?_
  exact ⟨_, rfl, ⟨ha.2.1.machine, ha.2.1.room⟩, ha.2.2.1⟩

theorem initTaskFds_of_room (r' : ℕ) (hr : Room k.heap r) (hn : r' + 264 ≤ r) (t : ℕ) :
    Gives (k.initTaskFds img t) fun k' =>
      Ends k k' r' ∧ (k'.tasks t).cr3 = (k.tasks t).cr3 ∧
        (k'.tasks t).userStackBottom = (k.tasks t).userStackBottom := by
  unfold initTaskFds
  dsimp only
  refine Gives.bind (createFile_of_room (r' + 176) (by exact hr) (by omega) _ _) ?_
  rintro ⟨f₀, k₁⟩ ⟨h1, ht1⟩
  refine Gives.bind (createFile_of_room (r' + 88) (by exact h1.room) (by omega) _ _) ?_
  rintro ⟨f₁, k₂⟩ ⟨h2, ht2⟩
  refine Gives.bind (createFile_of_room r' (by exact h2.room) (by omega) _ _) ?_
  rintro ⟨f₂, k₃⟩ ⟨h3, ht3⟩
  refine ⟨_, rfl, ⟨h3.machine.trans (h2.machine.trans h1.machine), h3.room⟩, ?_⟩
  dsimp only at ht1 ht2 ht3
  constructor
  · simp only [setFd, setTask, ht1, ht2, ht3, Function.update_self]
  · simp only [setFd, setTask, ht1, ht2, ht3, Function.update_self]

theorem addTask_of_room (r' : ℕ) (hr : Room k.heap r) (hn : r' + 264 ≤ r) (t kernelStackMem : ℕ)
    (userStackMem cr3 : UInt32) (isUser : Bool) :
    Gives (k.addTask img t kernelStackMem userStackMem cr3 isUser) fun k' =>
      Ends k k' r' ∧ (k'.tasks t).cr3 = cr3 ∧ (k'.tasks t).userStackBottom = userStackMem := by
  unfold addTask
  dsimp only
  refine Gives.bind (initTaskFds_of_room r' (by exact hr) hn t) fun a ha => ?_
  obtain ⟨hends, hcr3, hstack⟩ := ha
  simp only [tasks_setTask, if_true] at hcr3 hstack
  refine ⟨_, rfl, ⟨hends.machine, hends.room⟩, ?_, ?_⟩
  · dsimp only
    rw [setNext_field _ Task.cr3 (fun _ _ => rfl), setNext_field _ Task.cr3 (fun _ _ => rfl),
      tasks_setTask, if_pos rfl, hcr3]
  · dsimp only
    rw [setNext_field _ Task.userStackBottom (fun _ _ => rfl),
      setNext_field _ Task.userStackBottom (fun _ _ => rfl), tasks_setTask, if_pos rfl, hstack]

theorem createTask_of_room (r' : ℕ) (hr : Room k.heap r) (hn : r' + 1500 ≤ r) :
    Gives (k.createTask img) fun a => a.1 ≠ 0 ∧ Ends k a.2 r' := by
  have hstack : alignedSize TASK_STACK_SIZE = 1024 := by decide
  have htask : alignedSize TASK_SIZE = 152 := by decide
  unfold createTask
  refine Gives.bind (kmalloc_of_room (r' + 450) hr (by decide) (by omega)) ?_
  rintro ⟨stack, k₁⟩ ⟨hs, h1, _⟩
  dsimp only at hs h1 ⊢
  rw [if_neg hs]
  refine Gives.bind (kmalloc_of_room (r' + 264) h1.room (by decide) (by omega)) ?_
  rintro ⟨t, k₂⟩ ⟨ht, h2, _⟩
  dsimp only at ht h2 ⊢
  rw [if_neg ht]
  refine Gives.bind (addTask_of_room r' (by exact h2.room) (by omega) _ _ _ _ _) fun k₃ h3 => ?_
  exact ⟨_, rfl, ht, h3.1.machine.trans (h2.machine.trans h1.machine), h3.1.room⟩

/-- The stack of a new space is mapped, by a new table. -/
theorem newAddressSpace_of_open {n top : ℕ} (h : Open img k.machine n top) (hn : n + 1 < 1024)
    (htop : n + 1 < top)
    (hcur : k.current.cr3 = k.machine.cr3) (hc0 : k.machine.cr3 ≠ 0) (stack : UInt32) :
    Gives (k.newAddressSpace img stack) fun a => a.1 = frameAddr n ∧
      a.2.cr3 = k.machine.cr3 ∧ Open img a.2 (n + 2) top := by
  have hlt := h.lt
  obtain ⟨m₁, he1, hcr1, h1, hs1, h767, hk1⟩ := h.createPageDirectory (by omega) (by omega)
  have hne : frameAddr n ≠ 0 := fun e => by
    have := (frameAddr_eq_zero (by omega)).1 e
    omega
  have hfr : frameOf (frameAddr n) = n := frameOf_frameAddr (by omega)
  have h2 : Open img { m₁ with cr3 := frameAddr n } (n + 1) top :=
    h1.switch (by rw [hfr]; omega) (by rw [hfr]; exact hs1)
  have hidx : pdIdx USER_STACK_BOTTOM = 767 := by decide
  have hp : present (Machine.pde { m₁ with cr3 := frameAddr n } (pdIdx USER_STACK_BOTTOM))
      = false := by
    rw [hidx]
    show present (m₁.frames (frameOf (frameAddr n)) 767) = false
    rw [hfr, h767]
  obtain ⟨m₃, he3, _, h3, hk3⟩ := h2.mapPage (by omega) hp stack
    (PAGE_USER ||| PAGE_RW ||| PAGE_PRESENT)
  have hs3 : IsSpace img m₃ (frameOf k.machine.cr3) := by
    have hsp := hk1 _ hlt h.space
    exact hk3 _ (by omega) ⟨hsp.lt, hsp.low, hsp.self⟩
  have h4 : Open img { m₃ with cr3 := k.current.cr3 } (n + 2) top := by
    rw [hcur]
    exact h3.switch (by omega) hs3
  have hcur0 : k.current.cr3 ≠ 0 := hcur ▸ hc0
  unfold newAddressSpace vmmSwitchPageDirectory
  rw [he1]
  simp only [Option.bind_eq_bind, Option.bind_some, if_neg hne, he3, if_neg hcur0]
  exact ⟨_, rfl, rfl, hcur, h4⟩

/-- The directory of the current task is loaded, frames are free from `n` to `top`, and a block of
the heap has `r` free bytes. -/
structure Calm (img : Image) (k : Kernel) (r n top : ℕ) : Prop where
  room : Room k.heap r
  machine : Open img k.machine n top
  cr3 : k.current.cr3 = k.machine.cr3
  cr3_ne : k.machine.cr3 ≠ 0

/-- The stack takes frame `n`, the directory the next one. -/
theorem createUserTask_of_calm {n top : ℕ} (h : Calm img k r n top) (hr : r' + 1500 ≤ r)
    (hn : n + 2 < 1024) (htop : n + 2 < top) : Gives (k.createUserTask img) fun a =>
      a.1 ≠ 0 ∧ Room a.2.heap r' ∧ Open img a.2.machine (n + 3) top ∧
        a.2.machine.cr3 = k.machine.cr3 ∧ (a.2.tasks a.1).cr3 = frameAddr (n + 1) ∧
        (a.2.tasks a.1).userStackBottom = frameAddr n := by
  have hstack : alignedSize TASK_STACK_SIZE = 1024 := by decide
  have htask : alignedSize TASK_SIZE = 152 := by decide
  have hlt := h.machine.lt
  obtain ⟨halloc, ho⟩ := h.machine.take (by omega)
  have hpage : frameAddr n ≠ 0 := fun e => by
    have := (frameAddr_eq_zero (by omega)).1 e
    omega
  unfold createUserTask
  refine Gives.bind (kmalloc_of_room (r' + 450) h.room (by decide) (by omega)) ?_
  rintro ⟨kstack, k₁⟩ ⟨hks, h1, ht1, hc1⟩
  dsimp only at hks h1 ht1 hc1 ⊢
  rw [h1.machine, halloc]
  dsimp only
  rw [if_neg (not_or.2 ⟨hks, hpage⟩)]
  refine Gives.bind (kmalloc_of_room (r' + 264) (by exact h1.room) (by decide) (by omega)) ?_
  rintro ⟨t, k₂⟩ ⟨ht, h2, ht2, hc2⟩
  dsimp only at ht h2 ht2 hc2 ⊢
  rw [if_neg ht]
  have hcur : k₂.current.cr3 = k₂.machine.cr3 := by
    unfold Kernel.current
    rw [ht2, hc2, h2.machine, ht1, hc1]
    exact h.cr3
  have ho2 : Open img k₂.machine (n + 1) top := by
    rw [h2.machine]
    exact ho
  have hcr : k₂.machine.cr3 = k.machine.cr3 := by
    rw [h2.machine]
    rfl
  refine Gives.bind (newAddressSpace_of_open ho2 (by omega) (by omega) hcur (hcr ▸ h.cr3_ne) _) ?_
  rintro ⟨cr3, m⟩ ⟨hcr3, hm, ho3⟩
  refine Gives.bind (addTask_of_room r' (by exact h2.room) (by omega) _ _ _ _ _) ?_
  rintro k₃ ⟨h3, ht3, hs3⟩
  refine ⟨_, rfl, ht, h3.room, ?_, ?_, ht3.trans hcr3, hs3⟩
  · rw [h3.machine]
    exact ho3
  · rw [h3.machine]
    exact hm.trans hcr

/-! ### `kernel_main` -/

theorem initTasking_of_room (r' : ℕ) (hr : Room k.heap r) (hn : r' + 264 ≤ r) :
    Gives (k.initTasking img) fun k' => Ends k k' r' ∧
      k'.current.cr3 = vmmGetKernelPageDirectory img := by
  unfold initTasking
  dsimp only
  refine Gives.bind (initTaskFds_of_room r' (by exact hr) hn _) fun k₁ ⟨h1, hcr3, _⟩ => ?_
  refine ⟨_, rfl, ⟨h1.machine, h1.room⟩, ?_⟩
  simp only [setTask, Function.update_self] at hcr3
  simp only [Kernel.current, setNext, setTask, Function.update_self, hcr3]

theorem initHeap_of_open {n top : ℕ} (h : Open img k.machine n top) (hn : n + 1 < top)
    (hp : present (k.machine.pde 768) = false) : Gives (k.initHeap img) fun k' =>
      Room k'.heap 4080 ∧ Open img k'.machine (n + 2) top ∧ k'.machine.cr3 = k.machine.cr3 := by
  have hidx : pdIdx (UInt32.ofNat HEAP_START) = 768 := by decide
  obtain ⟨halloc, h1⟩ := h.take (by omega)
  have habsent :
      present (Machine.pde (k.machine.take n) (pdIdx (UInt32.ofNat HEAP_START))) = false := by
    rw [hidx]
    exact hp
  obtain ⟨m, hm, hcr3, h2, _⟩ :=
    h1.mapPage (by omega) habsent (frameAddr n) (PAGE_PRESENT ||| PAGE_RW)
  unfold initHeap
  rw [halloc]
  dsimp only
  rw [hm]
  exact ⟨_, rfl, room_initHeap _, h2, hcr3⟩

/-- Page frames from `n` on are free after `init_pmm`, so the kernel starts. -/
theorem boot_of_open {n top : ℕ} {magic : UInt32} {mbi : Pmm.MultibootInfo}
    (h : ∀ m : Machine, m.pages = Pmm.initPmm img.toKernelImage magic mbi →
      m.outOfMemory = false → m.highDirectory = false → Open img (initVmm img m) n top)
    (htop : n + 1 < top) : Gives (k.boot img magic mbi) fun k' => Calm img k' 3800 (n + 2) top := by
  have hd := img.directory_lt
  have hcr3 : frameOf (vmmGetKernelPageDirectory img) = img.pageDirectory :=
    frameOf_frameAddr (by omega)
  unfold boot
  dsimp only
  refine Gives.bind (initHeap_of_open (h _ rfl rfl rfl) (by omega) ?_) fun k₁ h1 => ?_
  · show present ((initVmm img _).frames (frameOf (vmmGetKernelPageDirectory img)) 768) = false
    rw [hcr3, frames_initVmm_directory]
    exact present_zero
  · obtain ⟨k₂, he, h2, hcur⟩ := @initTasking_of_room img _ _ 3800 h1.1 (by omega)
    refine ⟨k₂, he, h2.room, ?_, ?_, ?_⟩
    · rw [h2.machine]
      exact h1.2.1
    · rw [h2.machine, h1.2.2, hcur]
      rfl
    · rw [h2.machine, h1.2.2]
      show frameAddr img.pageDirectory ≠ 0
      intro e
      have := (frameAddr_eq_zero (by omega)).1 e
      have := img.directory_mem.1
      omega

end Kernel

/-! ### A small machine -/

def blankKernel : Kernel where
  heap := ⟨fun _ => 0, 0, 0⟩
  machine := blankMachine
  esp0 := 0
  timerTicks := 0
  tasks := fun _ => ⟨0, 0, 0, 0, 0, false, .ready, 0, 0, fun _ => 0, ⟨slash, 0, 0, 0, 0⟩⟩
  files := fun _ => ⟨.unused, .stdinOps, ⟨slash, 0, 0, 0, 0⟩, 0, 0, 0⟩
  currentTask := 0
  nextPid := 0
  vfsRoot := ⟨slash, 0, 0, 0, 0⟩
  alive := []

theorem open_of_freeFrom {img : Image} (hend : img.kernelEnd.toNat = 512 * 4096) {m : Machine}
    {n top : ℕ} (hf : FreeFrom m n top) (hn : 512 ≤ n) (ho : m.outOfMemory = false)
    (hh : m.highDirectory = false) : Open img (initVmm img m) n top := by
  have hd := img.directory_mem.2
  have hcr3 : frameOf (initVmm img m).cr3 = img.pageDirectory := frameOf_frameAddr (by omega)
  refine ⟨hf.congr rfl, by omega, ?_, ?_, isSpace_initVmm _ m, lowMapped_initVmm _ m, ho, hh⟩
  · omega
  · rw [hcr3]
    exact isSpace_initVmm _ m

theorem open_initVmm {m : Machine} (hp : m.pages = Pmm.initPmm smallImage.toKernelImage
    Pmm.MULTIBOOT_BOOTLOADER_MAGIC smallMap) (ho : m.outOfMemory = false)
    (hh : m.highDirectory = false) : Open smallImage (initVmm smallImage m) 512 16384 :=
  open_of_freeFrom (by decide) (freeFrom_boot hp) (le_refl _) ho hh

theorem blankKernel_boot : Gives (blankKernel.boot smallImage Pmm.MULTIBOOT_BOOTLOADER_MAGIC
    smallMap) fun k => k.Calm smallImage 3800 514 16384 :=
  Kernel.boot_of_open (fun _ hp ho hh => open_initVmm hp ho hh) (by omega)

end NosmeriOs.Tasks
