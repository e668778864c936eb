import NosmeriOs.TaskFiles

/-! # `SYS_OPEN` followed by `SYS_CLOSE`

`SYS_CLOSE` leaves a file with `vfs_file_ops` to `vfs_file_close`, which marks it and frees
nothing; the standard files it frees itself.  And `create_vfs_file` fills in its object before
`SYS_OPEN` looks whether there is one.

* `OpenCloseOk`: closing a new descriptor restores the table and the blocks in use, and a failed
  `SYS_OPEN` changes nothing outside the heap.
* `run_open_close_iff`: it holds if the path leads nowhere, if only a slot is missing, and, should
  memory be exhausted, if address `0` happens to hold the bytes that are written there. -/

namespace NosmeriOs.Tasks

open Bytes Vmm Vfs Heap

namespace Kernel

variable {img : Image} {k k' : Kernel} {buffers l : List ℕ}

/-- There is no memory for a `File`: no free block is large enough, and the heap has reached its
end or there is no page for it. -/
def NoMemory (k : Kernel) : Prop :=
  (∀ bs, Ok k.heap bs → ∀ b ∈ bs, ¬ Fits (alignedSize FILE_SIZE) b) ∧
    (HEAP_MAX_ADDR < k.heap.heapCurrentEnd + PAGE_SIZE ∨ k.machine.allocPage.1 = 0)

/-- The table of the current task has no empty slot. -/
def NoSlot (k : Kernel) : Prop := ∀ i < MAX_FD, k.current.fdTable i ≠ 0

theorem growHeap_none {m m' : Machine} {addr : ℕ}
    (h : growHeap img addr (some m) = (none, some m')) : m.allocPage.1 = 0 := by
  obtain ⟨f, m₁, he⟩ : ∃ f m₁, m.allocPage = (f, m₁) := ⟨_, _, rfl⟩
  unfold growHeap at h
  dsimp only at h
  rw [he] at h ⊢
  dsimp only at h ⊢
  split_ifs at h with h0
  · exact h0
  · split at h
    · cases h
    · cases h

theorem growHeap_of_noPage {m : Machine} (addr : ℕ) (h : m.allocPage.1 = 0) :
    (growHeap img addr (some m)).1 = none := by
  obtain ⟨f, m₁, he⟩ : ∃ f m₁, m.allocPage = (f, m₁) := ⟨_, _, rfl⟩
  unfold growHeap
  rw [he] at h
  dsimp only at h ⊢
  rw [he]
  dsimp only
  rw [if_pos h]

/-- What `kmalloc(sizeof(File))` does to the blocks in use. -/
theorem kmalloc_file {f : ℕ} (hc : Consistent img k buffers l)
    (hk : k.kmalloc img FILE_SIZE = some (f, k')) :
    (f = 0 ↔ NoMemory k) ∧ ¬ Live k.heap f ∧
      ∀ q, Live k'.heap q ↔ q = f ∧ f ≠ 0 ∨ Live k.heap q := by
  have hsize : alignedSize FILE_SIZE ≤ PAGE_SIZE - 16 := by decide
  obtain ⟨heap, machine, rfl, he⟩ := kmalloc_some hk
  have hlive := fun q => @live_kmalloc _ _ _ hc.owns (growHeap img) FILE_SIZE (some k.machine) q
  obtain ⟨bs, hok, -⟩ := hc.owns
  obtain ⟨hzero, hpage⟩ := kmalloc_eq_zero_iff hok (growHeap img) (some k.machine)
    (by decide : FILE_SIZE ≠ 0) hsize
  rw [he] at hzero hpage hlive
  refine ⟨⟨fun h0 => ⟨fun cs hcs => ?_, ?_⟩, fun hn => ?_⟩, (hlive f).2, fun q => (hlive q).1⟩
  · rw [← hok.unique hcs]
    exact (hzero.1 h0).1
  · obtain hlt | hle := Nat.lt_or_ge HEAP_MAX_ADDR (k.heap.heapCurrentEnd + PAGE_SIZE)
    · exact Or.inl hlt
    · exact Or.inr (growHeap_none (hpage h0 hle))
  · exact hzero.2 ⟨hn.1 bs hok, hn.2.imp id (growHeap_of_noPage _)⟩

/-! ### Open and close -/

/-- The descriptor table of the caller and the blocks in use are the same. -/
structure SameFds (k k' : Kernel) : Prop where
  fdTable : (k'.tasks k.currentTask).fdTable = k.current.fdTable
  live : ∀ p, Live k'.heap p ↔ Live k.heap p

/-- Outside the heap nothing differs but for the pages that the heap has taken. -/
structure SameOutside (img : Image) (k k' : Kernel) : Prop where
  tasks : SameTasks k k'
  files : ∀ p < HEAP_START, k'.files p = k.files p
  machine : Grows img k.machine k'.machine

/-- `SYS_OPEN` has returned `ret` in `k'`: a `SYS_CLOSE` of the descriptor takes everything back,
and a failure has changed nothing. -/
structure OpenCloseOk (img : Image) (k k' : Kernel) (ret : ℤ) : Prop where
  closed : 0 ≤ ret → SameFds k (k'.sysClose ret).2
  failed : ret = -1 → SameFds k k' ∧ SameOutside img k k'

/-- When it is so: there is no such file, or there is memory and no slot for it, or there is no
memory for it and its object already lies at address `0`. -/
def OpenHarmless (k : Kernel) (node : Option VfsNode) : Prop :=
  ∀ n, node = some n → ¬ NoMemory k ∧ NoSlot k ∨
    NoMemory k ∧ k.files 0 = Session.createVfsFile n

/-- The file of a closed descriptor stays in use. -/
theorem live_sysClose_opened {k₁ : Kernel} {node : VfsNode} {i f : ℕ} (hi : i < MAX_FD)
    (h0 : f ≠ 0) (hcur : k₁.currentTask = k.currentTask) :
    (((k₁.setFile f (Session.createVfsFile node)).setFd k.currentTask i f).sysClose i).2.heap =
      k₁.heap := by
  have hopen : ((k₁.setFile f (Session.createVfsFile node)).setFd k.currentTask i f).openFile i =
      some f := by
    unfold openFile
    have hfd : ((k₁.setFile f (Session.createVfsFile node)).setFd
        k.currentTask i f).current.fdTable i = f := by
      simp [current, setFd, setTask, setFile, hcur]
    rw [Int.toNat_natCast, hfd, if_neg]
    omega
  unfold sysClose
  rw [hopen]
  simp [setFd, setTask, setFile, Session.createVfsFile, vfsFileClose]

/-- So a descriptor that was handed out takes memory for good. -/
theorem not_openCloseOk {node : Option VfsNode} {ret : ℤ}
    (hc : Consistent img k (k.slots ++ buffers) l) (ho : k.sysOpen img node = some (ret, k'))
    (hret : 0 ≤ ret) : ¬ OpenCloseOk img k k' ret := by
  cases node with
  | none =>
      cases ho
      omega
  | some node =>
      obtain ⟨f, k₁, hk, ho⟩ := sysOpen_cases ho hc
      obtain ⟨_, hfresh, hlive⟩ := kmalloc_file hc hk
      have hcur := (hc.kmalloc hk).1.currentTask
      cases ho with
      | noMemory _ => omega
      | noSlot _ _ => omega
      | opened i h0 hi hfree =>
          intro h
          have hl := ((h.closed hret).live f).1
          rw [live_sysClose_opened hi h0 hcur] at hl
          exact hfresh (hl ((hlive f).2 (Or.inl ⟨rfl, h0⟩)))

theorem openClose_iff {node : Option VfsNode} {ret : ℤ}
    (hc : Consistent img k (k.slots ++ buffers) l) (ho : k.sysOpen img node = some (ret, k')) :
    OpenCloseOk img k k' ret ↔ OpenHarmless k node := by
  cases node with
  | none =>
      cases ho
      refine iff_of_true ⟨fun h => by omega, fun _ => ⟨⟨rfl, fun _ => Iff.rfl⟩, ?_⟩⟩ ?_
      · exact ⟨⟨rfl, rfl, rfl, rfl, rfl, rfl⟩, fun _ _ => rfl, .refl⟩
      · exact fun n hn => by cases hn
  | some node =>
      have hleak := not_openCloseOk hc ho
      obtain ⟨f, k₁, hk, ho⟩ := sysOpen_cases ho hc
      obtain ⟨hzero, hfresh, hlive⟩ := kmalloc_file hc hk
      obtain ⟨heap, machine, rfl, hg, hres⟩ := kmalloc_cases hk hc.owns
      have hharm : OpenHarmless k (some node) ↔ ¬ NoMemory k ∧ NoSlot k ∨
          NoMemory k ∧ k.files 0 = Session.createVfsFile node := by
        unfold OpenHarmless
        constructor
        · exact fun h => h node rfl
        · rintro h n ⟨⟩
          exact h
      rw [hharm]
      cases ho with
      | noMemory h0 =>
          have hn := hzero.1 h0
          have hiff : OpenCloseOk img k (setFile { k with heap := heap, machine := machine } 0
              (Session.createVfsFile node)) (-1) ↔ k.files 0 = Session.createVfsFile node := by
            constructor
            · intro h
              have hfile : Function.update k.files 0 (Session.createVfsFile node) 0 = k.files 0 :=
                (h.failed rfl).2.files 0 (by decide)
              rw [Function.update_self] at hfile
              exact hfile.symm
            · intro hfile
              refine ⟨fun h => by omega, fun _ => ⟨⟨rfl, fun p => ?_⟩,
                ⟨rfl, rfl, rfl, rfl, rfl, rfl⟩, fun p _ => ?_, hg⟩⟩
              · refine (hlive p).trans ?_
                simp [h0]
              · rw [setFile, ← hfile]
                exact congrFun (Function.update_eq_self 0 k.files) p
          rw [hiff]
          simp [hn]
      | noSlot h0 hfull =>
          have hn : ¬ NoMemory k := fun h => h0 (hzero.2 h)
          have ho' : Owns heap (f :: (k.blocks img ++ (k.slots ++ buffers))) := by
            obtain ⟨h, _⟩ | ⟨_, _, h⟩ := hres
            · exact absurd h h0
            · exact h
          have hf := ho'.live (List.mem_cons_self ..)
          refine iff_of_true ⟨fun h => by omega, fun _ => ⟨⟨rfl, fun p => ?_⟩,
            ⟨rfl, rfl, rfl, rfl, rfl, rfl⟩, fun p hp => ?_, hg⟩⟩ (Or.inl ⟨hn, hfull⟩)
          · refine (live_kfree hf).trans ?_
            rw [show Live heap p ↔ _ from hlive p]
            constructor
            · rintro ⟨hne, ⟨he, _⟩ | h⟩
              · exact absurd he hne
              · exact h
            · exact fun h => ⟨fun e => hfresh (e ▸ h), Or.inr h⟩
          · have hge := ho'.ge (List.mem_cons_self ..)
            exact Function.update_of_ne (by omega) ..
      | opened i h0 hi hfree =>
          have hn : ¬ NoMemory k := fun h => h0 (hzero.2 h)
          refine iff_of_false (hleak (by omega)) ?_
          rintro (⟨_, hfull⟩ | ⟨h, _⟩)
          · exact hfull i hi hfree
          · exact hn h

end Kernel

/-- The condition for a path, as the current task resolves it. -/
def Os.OpenHarmless (s : Os) (path : CStr) : Prop :=
  ∃ node, s.resolve path = some node ∧ s.system.kernel.OpenHarmless node

theorem Os.sysOpen_cases {img : Image} {s s' : Os} {path : CStr} {ret : ℤ}
    (h : s.sysOpen img path = some (ret, s')) : ∃ node, s.resolve path = some node ∧
      s.system.kernel.sysOpen img node = some (ret, s'.system.kernel) := by
  obtain ⟨node, hnode, h⟩ := Option.bind_eq_some_iff.1 h
  obtain ⟨⟨ret', k⟩, hk, h⟩ := Option.bind_eq_some_iff.1 h
  cases h
  exact ⟨node, hnode, hk⟩

/-- **Open and close**: whenever `SYS_OPEN` returns, closing the descriptor restores the table
and the blocks in use, and a failure leaves all memory outside the heap as it was, if and only
if no descriptor is handed out and no object is written to address `0`. -/
theorem run_open_close_iff {img : Image} {k₀ k : Kernel} {magic : UInt32}
    {mbi : Pmm.MultibootInfo} (hboot : k₀.boot img magic mbi = some k) (fs : VfsState)
    {calls : List Syscall} {s s' : Os} (hrun : (Os.start k fs).run img calls = some s)
    {path : CStr} {ret : ℤ} (hopen : s.sysOpen img path = some (ret, s')) :
    s.system.kernel.OpenCloseOk img s'.system.kernel ret ↔ s.OpenHarmless path := by
  obtain ⟨l, hc⟩ := (Kernel.inv_boot hboot fs).run hrun
  obtain ⟨node, hnode, ho⟩ := Os.sysOpen_cases hopen
  rw [Kernel.openClose_iff hc ho]
  constructor
  · exact fun h => ⟨node, hnode, h⟩
  · rintro ⟨node', hnode', h⟩
    rw [hnode] at hnode'
    cases hnode'
    exact h

/-- The root directory opened after `kernel_main`. -/
theorem run_open_close_iff_slash : ∃ k s, ∃ i : ℕ,
    blankKernel.boot smallImage Pmm.MULTIBOOT_BOOTLOADER_MAGIC smallMap = some k ∧
    (Os.start k (VfsState.init blankDisk)).run smallImage [] =
      some (Os.start k (VfsState.init blankDisk)) ∧
    (Os.start k (VfsState.init blankDisk)).sysOpen smallImage slash = some ((i : ℤ), s) ∧
    (k.OpenCloseOk smallImage s.system.kernel i ↔
      (Os.start k (VfsState.init blankDisk)).OpenHarmless slash) := by
  obtain ⟨k, hboot, i, s, ho⟩ := exists_opened
  refine ⟨k, s, i, hboot, rfl, ho, ?_⟩
  exact @run_open_close_iff smallImage blankKernel k _ _ hboot _ [] _ s rfl slash i ho

/-- Closing it frees nothing. -/
theorem open_close_leaks : ∃ k s, ∃ i : ℕ,
    blankKernel.boot smallImage Pmm.MULTIBOOT_BOOTLOADER_MAGIC smallMap = some k ∧
    (Os.start k (VfsState.init blankDisk)).run smallImage [] =
      some (Os.start k (VfsState.init blankDisk)) ∧
    (Os.start k (VfsState.init blankDisk)).sysOpen smallImage slash = some ((i : ℤ), s) ∧
    ¬ k.OpenCloseOk smallImage s.system.kernel i := by
  obtain ⟨k, hboot, i, s, ho⟩ := exists_opened
  obtain ⟨l, hc⟩ := Kernel.inv_boot hboot (VfsState.init blankDisk)
  obtain ⟨node, _, hk⟩ := Os.sysOpen_cases ho
  exact ⟨k, s, i, hboot, rfl, ho, Kernel.not_openCloseOk hc hk (Int.natCast_nonneg i)⟩

end NosmeriOs.Tasks
