import NosmeriOs.TaskContext
import NosmeriOs.VfsCursor

/-! # Descriptor tables (`arch/x86/syscall.cpp`, `fs/file.cpp`)

`SYS_OPEN`, `SYS_CLOSE`, `SYS_READ` and `SYS_WRITE` of the current task, over the heap that the
`File` objects are taken from.  `Vfs.Session` has the same calls with the objects themselves in
the tables; here the tables hold pointers, and an object may be freed while a slot points to it.

* `Os`: the kernel with the mounted file system.  What `SYS_READ` stores in the caller's buffer
  and what `SYS_WRITE` sends to the screen is left out.
* `slots`: the pointers in the tables of the tasks alive.  The invariant `Os.Inv` has them among
  the blocks that the kernel holds, beside the tasks, their stacks and the buffers.
* `run_descriptors`: no slot dangles, no two slots share a `File`, and `SYS_CLOSE` frees a block
  that no slot points to afterwards. -/

namespace NosmeriOs.Tasks

open Bytes Vmm Vfs SimpleFs Heap Rings

namespace Kernel

section functions
variable (img : Image)

/-- `create_vfs_file`; again without a check that there is memory. -/
def createVfsFile (k : Kernel) (node : VfsNode) : Option (ℕ × Kernel) := do
  let (f, k) ← k.kmalloc img FILE_SIZE
  some (f, { k with files := Function.update k.files f (Session.createVfsFile node) })

/-- `SYS_OPEN`, for what `vfs_resolve_path` finds under the path, if anything. -/
def sysOpen (k : Kernel) (node : Option VfsNode) : Option (ℤ × Kernel) :=
  match node with
  | none => some (-1, k)
  | some node => do
      let (file, k) ← k.createVfsFile img node
      if file = 0 then some (-1, k)
      else match (List.range MAX_FD).find? fun i => k.current.fdTable i = 0 with
        | none => some (-1, k.kfree file)
        | some i => some (i, k.setFd k.currentTask i file)

end functions

def setFile (k : Kernel) (f : ℕ) (file : File) : Kernel :=
  { k with files := Function.update k.files f file }

/-- `vfs_file_close`. -/
def vfsFileClose (k : Kernel) (f : ℕ) : Kernel := k.setFile f { k.files f with type := .unused }

/-- The `File` that the current task has under a descriptor, if it is one. -/
def openFile (k : Kernel) (fd : ℤ) : Option ℕ :=
  if fd < 0 ∨ (MAX_FD : ℤ) ≤ fd ∨ k.current.fdTable fd.toNat = 0 then none
  else some (k.current.fdTable fd.toNat)

/-- `SYS_CLOSE`: only `vfs_file_ops` has a `close`. -/
def sysClose (k : Kernel) (fd : ℤ) : ℤ × Kernel :=
  match k.openFile fd with
  | none => (-1, k)
  | some file =>
      let k := match (k.files file).ops with
        | .vfsFileOps => k.vfsFileClose file
        | _ => k.kfree file
      (0, k.setFd k.currentTask fd.toNat 0)

/-- `vfs_file_read` and `vfs_file_write` go on by what they have read or written. -/
def advance (k : Kernel) (f : ℕ) (bytes : ℤ) : Kernel :=
  if 0 < bytes then
    k.setFile f { k.files f with offset := (k.files f).offset + cUInt bytes }
  else k

/-- `vfs_file_read`. -/
def vfsFileRead (k : Kernel) (io : Io) (f : ℕ) (count : UInt32) :
    Option ((ℤ × List UInt8) × Kernel) :=
  (vfsRead io (k.files f).node count).map fun r => (r, k.advance f r.1)

/-- `SYS_READ`: what it returns, and the bytes it delivers. -/
def sysRead (k : Kernel) (io : Io) (fd : ℤ) (r : ReadCall) : Option ((ℤ × List UInt8) × Kernel) :=
  match k.openFile fd with
  | none => some ((-1, []), k)
  | some file => match (k.files file).ops with
    | .stdinOps => some (stdinRead r, k)
    | .stdoutOps => some ((-1, []), k)
    | .stderrOps => some ((-1, []), k)
    | .vfsFileOps => k.vfsFileRead io file r.count

/-- `vfs_file_write`. -/
def vfsFileWrite (k : Kernel) (io : Io) (sb : Superblock) (f : ℕ) (buf : ℕ → UInt8)
    (count : UInt32) : ℤ × Io × Kernel :=
  let (bytes, io, node) := vfsWrite io sb (k.files f).node buf count
  (bytes, io, (k.setFile f { k.files f with node := node }).advance f bytes)

/-- `SYS_WRITE`. -/
def sysWrite (k : Kernel) (io : Io) (sb : Superblock) (fd : ℤ) (buf : ℕ → UInt8)
    (count : UInt32) : ℤ × Io × Kernel :=
  match k.openFile fd with
  | none => (-1, io, k)
  | some file => match (k.files file).ops with
    | .stdinOps => (-1, io, k)
    | .stdoutOps => (cInt count, io, k)
    | .stderrOps => (cInt count, io, k)
    | .vfsFileOps => k.vfsFileWrite io sb file buf count

/-- `vfs_cd`, for what `vfs_resolve_path` finds under the path, if anything. -/
def vfsCd (k : Kernel) (node : Option VfsNode) : ℤ × Kernel :=
  match node with
  | none => (-1, k)
  | some target =>
      if !target.isDirectory then (-1, k)
      else (0, k.setTask k.currentTask { k.current with cwd := target })

end Kernel

/-- The kernel and the mounted file system. -/
structure Os where
  system : System
  fs : VfsState

inductive Syscall where
  /-- What the kernel does with tasks, with the heap and with page faults. -/
  | task (op : Op)
  /-- What it does with the file system. -/
  | vfs (c : VfsCall)
  | chdir (path : CStr)
  | open (path : CStr)
  | close (fd : ℤ)
  | read (fd : ℤ) (r : ReadCall)
  | write (fd : ℤ) (buf : ℕ → UInt8) (count : UInt32)

namespace Os

variable (img : Image)

def withKernel (s : Os) (k : Kernel) : Os := { s with system := s.system.withKernel k }

/-- `vfs_resolve_path` for the current task; `none` if it overruns its token. -/
def resolve (s : Os) (path : CStr) : Option (Option VfsNode) :=
  vfsResolvePath s.fs.io s.system.kernel.vfsRoot s.system.kernel.current.cwd path

def sysOpen (s : Os) (path : CStr) : Option (ℤ × Os) := do
  let node ← s.resolve path
  let (ret, k) ← s.system.kernel.sysOpen img node
  some (ret, s.withKernel k)

def sysClose (s : Os) (fd : ℤ) : ℤ × Os :=
  let (ret, k) := s.system.kernel.sysClose fd
  (ret, s.withKernel k)

/-- A call whose path overruns the token plays no part in a run: the state stays. -/
def step (s : Os) : Syscall → Option Os
  | .task op => (s.system.step img op).map fun system => { s with system := system }
  | .vfs c => some { s with fs := s.fs.call c }
  | .chdir path =>
      match s.resolve path with
      | none => some s
      | some node => some (s.withKernel (s.system.kernel.vfsCd node).2)
  | .open path =>
      match s.resolve path with
      | none => some s
      | some _ => (s.sysOpen img path).map Prod.snd
  | .close fd => some (s.sysClose fd).2
  | .read fd r => (s.system.kernel.sysRead s.fs.io fd r).map fun r => s.withKernel r.2
  | .write fd buf count =>
      let (_, io, k) := s.system.kernel.sysWrite s.fs.io s.fs.sb fd buf count
      some { s.withKernel k with fs := { s.fs with io := io } }

def run (s : Os) (calls : List Syscall) : Option Os := calls.foldlM (step img) s

/-- After `kernel_main` has mounted the file system and set up the tasks. -/
def start (k : Kernel) (fs : VfsState) : Os := ⟨System.start k, fs⟩

end Os

/-! ### The pointers in the tables -/

namespace Kernel

variable {img : Image} {k k' : Kernel} {buffers l : List ℕ}

/-- The files in the descriptor tables of the tasks alive. -/
def slots (k : Kernel) : List ℕ := k.alive.flatMap fun t => fds (k.tasks t)

theorem nonNull_map_update {g : ℕ → ℕ} {is : List ℕ} {i f : ℕ} (hn : is.Nodup) (hi : i ∈ is)
    (h0 : g i = 0) (hf : f ≠ 0) :
    (nonNull (is.map (Function.update g i f))).Perm (f :: nonNull (is.map g)) := by
  have hp := List.perm_cons_erase hi
  have hold : (is.erase i).map (Function.update g i f) = (is.erase i).map g := by
    apply List.map_congr_left
    intro j hj
    exact Function.update_of_ne (fun e => hn.not_mem_erase (e ▸ hj)) ..
  have h1 : (nonNull (is.map (Function.update g i f))).Perm
      (f :: nonNull ((is.erase i).map g)) := by
    refine ((hp.map _).filter _).trans ?_
    simp [nonNull, hf, hold]
  have h2 : (nonNull (is.map g)).Perm (nonNull ((is.erase i).map g)) := by
    refine ((hp.map _).filter _).trans ?_
    simp [nonNull, h0]
  exact h1.trans (h2.symm.cons f)

theorem slots_setFd {t i f : ℕ} (hn : k.alive.Nodup) (ht : t ∈ k.alive) (hi : i < MAX_FD)
    (h0 : (k.tasks t).fdTable i = 0) (hf : f ≠ 0) : (k.setFd t i f).slots.Perm (f :: k.slots) := by
  have hp := List.perm_cons_erase ht
  have hold : (k.alive.erase t).flatMap (fun x => fds ((k.setFd t i f).tasks x)) =
      (k.alive.erase t).flatMap fun x => fds (k.tasks x) := by
    apply List.flatMap_congr
    intro x hx
    rw [setFd, tasks_setTask, if_neg fun e => hn.not_mem_erase (e ▸ hx)]
  have hnew : (fds ((k.setFd t i f).tasks t)).Perm (f :: fds (k.tasks t)) := by
    rw [setFd, tasks_setTask, if_pos rfl]
    exact nonNull_map_update List.nodup_range (List.mem_range.2 hi) h0 hf
  have h1 : (k.setFd t i f).slots.Perm
      (f :: (fds (k.tasks t) ++ (k.alive.erase t).flatMap fun x => fds (k.tasks x))) := by
    refine (hp.flatMap_right _).trans ?_
    rw [List.flatMap_cons, hold]
    exact hnew.append_right _
  have h2 : k.slots.Perm
      (fds (k.tasks t) ++ (k.alive.erase t).flatMap fun x => fds (k.tasks x)) := by
    refine (hp.flatMap_right _).trans ?_
    rw [List.flatMap_cons]
  exact h1.trans (h2.symm.cons f)

theorem mem_fds {x : Task} {f : ℕ} :
    f ∈ fds x ↔ f ≠ 0 ∧ ∃ fd < MAX_FD, x.fdTable fd = f := by
  simp only [fds, nonNull, List.mem_filter, List.mem_map, List.mem_range, decide_eq_true_eq]
  exact and_comm

theorem mem_slots {f : ℕ} :
    f ∈ k.slots ↔ f ≠ 0 ∧ ∃ t ∈ k.alive, ∃ fd < MAX_FD, (k.tasks t).fdTable fd = f := by
  simp only [slots, List.mem_flatMap, mem_fds]
  constructor
  · rintro ⟨t, ht, h0, h⟩
    exact ⟨h0, t, ht, h⟩
  · rintro ⟨h0, t, ht, h⟩
    exact ⟨t, ht, h0, h⟩

/-- No descriptor changes; tasks may be removed, with their tables. -/
structure SameFiles (k k' : Kernel) : Prop where
  alive : k'.alive.Sublist k.alive
  fdTable : ∀ t, (k'.tasks t).fdTable = (k.tasks t).fdTable

theorem SameFiles.refl (k : Kernel) : SameFiles k k := ⟨List.Sublist.refl _, fun _ => rfl⟩

theorem SameFiles.trans {k₁ k₂ k₃ : Kernel} (h : SameFiles k₁ k₂) (h' : SameFiles k₂ k₃) :
    SameFiles k₁ k₃ :=
  ⟨h'.alive.trans h.alive, fun t => (h'.fdTable t).trans (h.fdTable t)⟩

theorem SameFiles.slots (h : SameFiles k k') : k'.slots.Sublist k.slots := by
  have he : k'.slots = k'.alive.flatMap fun t => fds (k.tasks t) := by
    apply List.flatMap_congr
    intro t _
    rw [fds, fds, h.fdTable]
  rw [he]
  exact h.alive.flatMap _

theorem SameTasks.sameFiles (h : SameTasks k k') : SameFiles k k' :=
  ⟨h.alive ▸ List.Sublist.refl _, fun t => by rw [h.tasks]⟩

theorem SameTasks.slots (h : SameTasks k k') : k'.slots = k.slots := by
  unfold Kernel.slots
  rw [h.alive, h.tasks]

theorem remove_sameFiles (k : Kernel) (t prev : ℕ) : SameFiles k (k.remove t prev) := by
  refine ⟨?_, fun x => ?_⟩
  · rw [remove_eq]
    exact List.erase_sublist
  · rw [remove_fields]

theorem killTask_sameFiles (h : Consistent img k buffers l) (pid : UInt32) :
    SameFiles k (k.killTask pid).2 := by
  obtain ⟨xs, t, ys, _, _, _, _, he⟩ | ⟨_, he⟩ := killTask_cases h pid
  · rw [he]
    exact remove_sameFiles k t _
  · rw [he]
    exact .refl k

theorem schedule_sameFiles (hk : k.schedule = some k') (h : Consistent img k buffers l) :
    SameFiles k k' := by
  obtain ⟨k₁, l₁, hkills, _, _, hres⟩ := schedule_cases hk h
  have hs : SameFiles k k₁ :=
    hkills.induction h (fun _ _ pid hc hp => hp.trans (killTask_sameFiles hc pid)) (.refl k)
  obtain rfl | ⟨next, _, _, hsw⟩ := hres
  · exact hs
  · rw [switchTo_eq hsw]
    exact hs.trans ⟨List.Sublist.refl _, fun _ => rfl⟩

theorem stop_sameFiles (k : Kernel) (st : TaskState) (wakeTick : UInt32) :
    SameFiles k (k.stop st wakeTick) := by
  refine ⟨List.Sublist.refl _, fun t => ?_⟩
  rw [tasks_stop]
  split_ifs with ht
  · rw [ht]
    rfl
  · rfl

theorem taskTimerTick_sameFiles (h : Consistent img k buffers l) :
    SameFiles k k.taskTimerTick := by
  rw [taskTimerTick_eq h]
  refine ⟨List.Sublist.refl _, fun t => ?_⟩
  dsimp only
  unfold woken
  split_ifs <;> rfl

/-! ### What the calls do to the blocks -/

theorem Consistent.sameFiles (h : Consistent img k' (k.slots ++ buffers) l)
    (hs : SameFiles k k') : Consistent img k' (k'.slots ++ buffers) l := by
  have hsub := hs.slots.append_right buffers
  apply h.buffers_subset
  · exact (List.nodup_append.1 h.owns.nodup).2.1.sublist hsub
  · exact hsub.subset

theorem Created.slots {t : ℕ} (h : Created k k' t) (hnew : t ∉ k.alive) :
    k'.slots = fds (k'.tasks t) ++ k.slots := by
  unfold Kernel.slots
  rw [h.alive, List.flatMap_cons]
  congr 1
  apply List.flatMap_congr
  intro x hx
  rw [h.old fun e => hnew (e ▸ hx)]
  rfl

/-- The files of a new task are new too. -/
theorem Consistent.createdFiles {t kernelStackMem : ℕ}
    (h : Consistent img k (k.slots ++ buffers) l) (hcr : Created k k' t)
    (hstack : (k'.tasks t).kernelStackBottom = kernelStackMem)
    (ho : Owns k'.heap ((t :: kernelStackMem :: (k.blocks img ++ (k.slots ++ buffers))) ++
      fds (k'.tasks t))) :
    Consistent img k' (k'.slots ++ buffers) (t :: l) := by
  obtain ⟨hnew, hc⟩ := h.created hcr hstack ho.left
  have hkt : t ≠ img.kernelTask := fun e => hnew (e ▸ h.kernel)
  refine hc.sameTasks ⟨rfl, rfl, rfl, rfl, rfl, rfl⟩ ?_
  rw [hcr.blocks hkt hnew, hcr.slots hnew, hstack]
  have hp : List.Perm ((k.blocks img ++ (k.slots ++ buffers)) ++ fds (k'.tasks t))
      (k.blocks img ++ (fds (k'.tasks t) ++ k.slots ++ buffers)) := by
    rw [List.append_assoc (k.blocks img), List.append_assoc (fds (k'.tasks t))]
    exact List.perm_append_comm.append_left _
  exact ho.perm ((hp.cons _).cons _)

theorem openFile_cases {fd : ℤ} {f : ℕ} (h : k.openFile fd = some f) :
    ∃ i < MAX_FD, fd = i ∧ k.current.fdTable i = f ∧ f ≠ 0 := by
  unfold openFile at h
  split_ifs at h with hc
  cases h
  rw [not_or, not_or] at hc
  obtain ⟨h0, hmax, hf⟩ := hc
  refine ⟨fd.toNat, by omega, by omega, rfl, hf⟩

/-- The slot of a file is emptied. -/
theorem slots_close {i f : ℕ} (hn : k.alive.Nodup) (ht : k.currentTask ∈ k.alive)
    (hi : i < MAX_FD) (hf : k.current.fdTable i = f) (h0 : f ≠ 0) :
    k.slots.Perm (f :: (k.setFd k.currentTask i 0).slots) := by
  have hback : (k.setFd k.currentTask i 0).setFd k.currentTask i f = k := by
    subst hf
    simp [setFd, setTask, current]
  have hp := slots_setFd (k := k.setFd k.currentTask i 0) hn ht hi ?_ h0
  · rwa [hback] at hp
  · rw [setFd, tasks_setTask, if_pos rfl]
    exact Function.update_self ..

/-! ### What the calls do -/

/-- What `SYS_OPEN` does once there is a node. -/
inductive Opens (k : Kernel) (node : VfsNode) (f : ℕ) (k₁ : Kernel) : ℤ → Kernel → Prop
  | noMemory : f = 0 → Opens k node f k₁ (-1) (k₁.setFile 0 (Session.createVfsFile node))
  | noSlot : f ≠ 0 → (∀ i < MAX_FD, k.current.fdTable i ≠ 0) →
      Opens k node f k₁ (-1) ((k₁.setFile f (Session.createVfsFile node)).kfree f)
  | opened (i : ℕ) : f ≠ 0 → i < MAX_FD → k.current.fdTable i = 0 →
      Opens k node f k₁ i
        ((k₁.setFile f (Session.createVfsFile node)).setFd k.currentTask i f)

theorem sysOpen_cases {node : VfsNode} {ret : ℤ} (h : k.sysOpen img (some node) = some (ret, k'))
    (hc : Consistent img k buffers l) :
    ∃ f k₁, k.kmalloc img FILE_SIZE = some (f, k₁) ∧ Opens k node f k₁ ret k' := by
  obtain ⟨⟨f, k₂⟩, h1, h⟩ := Option.bind_eq_some_iff.1 h
  obtain ⟨⟨f', k₁⟩, hk, h1⟩ := Option.bind_eq_some_iff.1 h1
  cases h1
  have hs := (hc.kmalloc hk).1
  refine ⟨f, k₁, hk, ?_⟩
  dsimp only at h
  split_ifs at h with h0
  · cases h
    subst h0
    exact .noMemory rfl
  · split at h
    · next hnone =>
        cases h
        refine .noSlot h0 fun i hi => ?_
        have hne := List.find?_eq_none.1 hnone i (List.mem_range.2 hi)
        simpa [current, hs.tasks, hs.currentTask] using hne
    · next i hsome =>
        cases h
        have hi := List.mem_range.1 (List.mem_of_find?_eq_some hsome)
        have hfree := List.find?_some hsome
        have hopened : Opens k node f k₁ i
            ((k₁.setFile f (Session.createVfsFile node)).setFd k.currentTask i f) := by
          refine .opened i h0 hi ?_
          simpa [current, hs.tasks, hs.currentTask] using hfree
        rw [← hs.currentTask] at hopened
        exact hopened

/-- What `SYS_CLOSE` does to the open file under a descriptor. -/
inductive Closes (k : Kernel) (i f : ℕ) : Kernel → Prop
  | closed : (k.files f).ops = .vfsFileOps →
      Closes k i f ((k.vfsFileClose f).setFd k.currentTask i 0)
  | freed : (k.files f).ops ≠ .vfsFileOps → Closes k i f ((k.kfree f).setFd k.currentTask i 0)

theorem sysClose_cases (k : Kernel) (fd : ℤ) :
    k.sysClose fd = (-1, k) ∨ ∃ i f k', i < MAX_FD ∧ fd = i ∧ k.current.fdTable i = f ∧ f ≠ 0 ∧
      k.sysClose fd = (0, k') ∧ Closes k i f k' := by
  unfold sysClose
  cases ho : k.openFile fd with
  | none => exact Or.inl rfl
  | some f =>
      obtain ⟨i, hi, rfl, hf, h0⟩ := openFile_cases ho
      refine Or.inr ⟨i, f, _, hi, rfl, hf, h0, rfl, ?_⟩
      rw [Int.toNat_natCast]
      cases hops : (k.files f).ops with
      | vfsFileOps => exact .closed hops
      | _ => exact .freed (by simp [hops])

/-- The tables that `SYS_OPEN` and `SYS_CLOSE` leave are held apart from all else. -/
theorem Consistent.setFd {t i f : ℕ} (h : Consistent img k buffers l) :
    Consistent img (k.setFd t i f) buffers l := by
  refine h.congr ?_ ?_ (fun x => ?_) h.owns
  · rfl
  · rfl
  · rw [Kernel.setFd, tasks_setTask]
    split_ifs with hx
    · rw [hx]
      exact ⟨rfl, rfl, rfl⟩
    · exact ⟨rfl, rfl, rfl⟩

theorem Consistent.setFile {f : ℕ} {file : File} (h : Consistent img k buffers l) :
    Consistent img (k.setFile f file) buffers l :=
  h.sameTasks ⟨rfl, rfl, rfl, rfl, rfl, rfl⟩ h.owns

theorem Consistent.sysOpen {node : Option VfsNode} {ret : ℤ}
    (h : Consistent img k (k.slots ++ buffers) l) (ho : k.sysOpen img node = some (ret, k')) :
    Consistent img k' (k'.slots ++ buffers) l := by
  cases node with
  | none =>
      cases ho
      exact h
  | some node =>
      obtain ⟨f, k₁, hk, ho⟩ := sysOpen_cases ho h
      obtain ⟨hs, hc⟩ := h.kmalloc hk
      cases ho with
      | noMemory h0 =>
          rw [if_pos h0, ← hs.slots] at hc
          exact hc.setFile
      | noSlot h0 _ =>
          rw [if_neg h0, ← hs.slots] at hc
          exact Consistent.kfree hc.setFile (.refl _)
      | opened i h0 hi hfree =>
          rw [if_neg h0] at hc
          have hp : ((k₁.setFile f (Session.createVfsFile node)).setFd k.currentTask i f).slots.Perm
              (f :: k.slots) := by
            rw [← hs.slots, ← hs.currentTask]
            apply slots_setFd hc.nodup hc.current_mem hi
            · exact (congrArg (fun x => x.fdTable i) hs.current).trans hfree
            · exact h0
          exact (hc.setFile.perm (hp.symm.append_right buffers)).setFd

theorem Consistent.sysClose {fd : ℤ} (h : Consistent img k (k.slots ++ buffers) l) :
    Consistent img (k.sysClose fd).2 ((k.sysClose fd).2.slots ++ buffers) l := by
  obtain he | ⟨i, f, k', hi, rfl, hf, h0, he, hcl⟩ := sysClose_cases k fd
  · rw [he]
    exact h
  · rw [he]
    have hp := slots_close h.nodup h.current_mem hi hf h0
    have hc := h.perm (hp.append_right buffers)
    cases hcl with
    | closed _ =>
        have hn := (List.nodup_append.1 hc.owns.nodup).2.1
        exact (hc.buffers_subset hn.of_cons (List.subset_cons_self ..)).setFile.setFd
    | freed _ => exact (hc.kfree (.refl _)).setFd

/-- Only the `File` objects differ. -/
theorem sysRead_cases {io : Io} {fd : ℤ} {r : ReadCall} {out : ℤ × List UInt8}
    (h : k.sysRead io fd r = some (out, k')) : k' = k ∨ ∃ f file, k' = k.setFile f file := by
  unfold sysRead at h
  cases ho : k.openFile fd with
  | none =>
      rw [ho] at h
      cases h
      exact Or.inl rfl
  | some f =>
      rw [ho] at h
      dsimp only at h
      cases hops : (k.files f).ops with
      | vfsFileOps =>
          rw [hops] at h
          obtain ⟨res, _, h⟩ := Option.map_eq_some_iff.1 h
          cases h
          unfold advance
          split_ifs
          · exact Or.inr ⟨f, _, rfl⟩
          · exact Or.inl rfl
      | _ =>
          rw [hops] at h
          cases h
          exact Or.inl rfl

theorem sysWrite_cases (k : Kernel) (io : Io) (sb : Superblock) (fd : ℤ) (buf : ℕ → UInt8)
    (count : UInt32) : (k.sysWrite io sb fd buf count).2.2 = k ∨
      ∃ f file, (k.sysWrite io sb fd buf count).2.2 = k.setFile f file := by
  unfold sysWrite
  cases ho : k.openFile fd with
  | none => exact Or.inl rfl
  | some f =>
      dsimp only
      cases hops : (k.files f).ops with
      | vfsFileOps =>
          right
          simp only [vfsFileWrite, advance]
          split_ifs
          · exact ⟨f, _, by simp only [setFile, Function.update_idem]; rfl⟩
          · exact ⟨f, _, rfl⟩
      | _ => exact Or.inl rfl

theorem Consistent.vfsCd {node : Option VfsNode} (h : Consistent img k buffers l) :
    Consistent img (k.vfsCd node).2 buffers l ∧ SameFiles k (k.vfsCd node).2 := by
  unfold Kernel.vfsCd
  split
  · exact ⟨h, .refl k⟩
  · split_ifs
    · exact ⟨h, .refl k⟩
    · refine ⟨h.congr ?_ ?_ (fun x => ?_) h.owns, List.Sublist.refl _, fun x => ?_⟩
      · rfl
      · rfl
      all_goals
        rw [tasks_setTask]
        split_ifs with hx
        · rw [hx]
          simp [current]
        · simp

theorem files_of_sameFiles (hs : SameFiles k k')
    (h : ∃ l', Consistent img k' (k.slots ++ buffers) l') :
    ∃ l', Consistent img k' (k'.slots ++ buffers) l' := by
  obtain ⟨l', hc⟩ := h
  exact ⟨l', hc.sameFiles hs⟩

end Kernel

namespace System

variable {img : Image} {s s' : System} {op : Op} {l : List ℕ}

theorem step_files (h : s.step img op = some s')
    (hc : s.kernel.Consistent img (s.kernel.slots ++ s.buffers) l) :
    ∃ l', s'.kernel.Consistent img (s'.kernel.slots ++ s'.buffers) l' := by
  have hheld := hc.currentHeld
  cases op with
  | createTask =>
      obtain ⟨⟨t, k⟩, hk, rfl⟩ := Option.map_eq_some_iff.1 h
      obtain ⟨_, ⟨rfl, hs, ho⟩ | ⟨ht, hcr, kstack, hh, ho⟩⟩ :=
        Kernel.createTask_cases hk hheld hc.owns
      · exact Kernel.files_of_sameFiles hs.sameFiles ⟨l, hc.sameTasks hs ho⟩
      · exact ⟨_, hc.createdFiles hcr hh.kernelStack ho⟩
  | createUserTask =>
      obtain ⟨⟨t, k⟩, hk, rfl⟩ := Option.map_eq_some_iff.1 h
      obtain ⟨rfl, hs, ho, _⟩ | ⟨ht, hcr, kstack, stack, cr3, hh, ho, _⟩ :=
        Kernel.createUserTask_cases hk hheld hc.owns
      · exact Kernel.files_of_sameFiles hs.sameFiles ⟨l, hc.sameTasks hs ho⟩
      · exact ⟨_, hc.createdFiles hcr hh.kernelStack ho⟩
  | createUserProcess file =>
      obtain ⟨⟨t, k⟩, hk, rfl⟩ := Option.map_eq_some_iff.1 h
      obtain ⟨rfl, hs, ho, _⟩ | ⟨ht, hcr, kstack, stack, cr3, size, m, hh, ho, _⟩ :=
        Kernel.createUserProcess_cases hk hheld hc.owns
      · exact Kernel.files_of_sameFiles hs.sameFiles ⟨l, hc.sameTasks hs ho⟩
      · exact ⟨_, hc.createdFiles hcr hh.kernelStack ho⟩
  | killTask pid =>
      cases h
      exact Kernel.files_of_sameFiles (Kernel.killTask_sameFiles hc pid) (hc.killTask pid)
  | exitTask =>
      obtain ⟨k, hk, rfl⟩ := Option.map_eq_some_iff.1 h
      have hc' := hc.stop .dead s.kernel.current.wakeTick
      have hs := (Kernel.stop_sameFiles ..).trans (Kernel.schedule_sameFiles hk hc')
      exact Kernel.files_of_sameFiles hs (hc'.schedule hk)
  | taskSleep ms =>
      obtain ⟨k, hk, rfl⟩ := Option.map_eq_some_iff.1 h
      rw [Kernel.taskSleep_eq hc] at hk
      have hc' := hc.stop .sleeping (s.kernel.timerTicks + Kernel.sleepTicks ms)
      have hs := (Kernel.stop_sameFiles ..).trans (Kernel.schedule_sameFiles hk hc')
      exact Kernel.files_of_sameFiles hs (hc'.schedule hk)
  | taskTimerTick =>
      cases h
      exact Kernel.files_of_sameFiles (Kernel.taskTimerTick_sameFiles hc) ⟨l, hc.taskTimerTick⟩
  | timerHandler =>
      obtain ⟨k, hk, rfl⟩ := Option.map_eq_some_iff.1 h
      have hc₁ := hc.tick.1
      have hc₂ := hc₁.taskTimerTick
      have hs : s.kernel.SameFiles { s.kernel with timerTicks := s.kernel.timerTicks + 1 } :=
        ⟨List.Sublist.refl _, fun _ => rfl⟩
      have hs' := (Kernel.taskTimerTick_sameFiles hc₁).trans (Kernel.schedule_sameFiles hk hc₂)
      exact Kernel.files_of_sameFiles (hs.trans hs') (hc₂.schedule hk)
  | schedule =>
      obtain ⟨k, hk, rfl⟩ := Option.map_eq_some_iff.1 h
      exact Kernel.files_of_sameFiles (Kernel.schedule_sameFiles hk hc) (hc.schedule hk)
  | pageFault addr =>
      obtain ⟨m, _, rfl⟩ := Option.map_eq_some_iff.1 h
      have hs : s.kernel.SameTasks { s.kernel with machine := m } := ⟨rfl, rfl, rfl, rfl, rfl, rfl⟩
      exact Kernel.files_of_sameFiles hs.sameFiles ⟨l, hc.sameTasks hs hc.owns⟩
  | kmalloc bytes =>
      obtain ⟨⟨p, k⟩, hk, rfl⟩ := Option.map_eq_some_iff.1 h
      obtain ⟨hs, hc'⟩ := hc.kmalloc hk
      refine ⟨l, ?_⟩
      unfold withBuffer
      dsimp only
      rw [hs.slots]
      split_ifs at hc' ⊢
      · exact hc'
      · exact hc'.perm List.perm_middle.symm
  | kfree i =>
      simp only [step] at h
      cases hi : s.buffers[i]? with
      | none =>
          rw [hi] at h
          cases h
          exact ⟨l, hc⟩
      | some p =>
          rw [hi] at h
          cases h
          obtain ⟨hlt, rfl⟩ := List.getElem?_eq_some_iff.1 hi
          refine ⟨l, hc.kfree (((List.Perm.append_left _ ?_)).trans List.perm_middle)⟩
          exact (List.getElem_cons_eraseIdx_perm hlt).symm

end System

/-! ### Runs -/

namespace Os

variable {img : Image} {s s' : Os} {call : Syscall}

/-- The invariant: the list of tasks is consistent, and the files in the tables are blocks that
the kernel holds beside the others. -/
def Inv (img : Image) (s : Os) : Prop := ∃ l, s.system.kernel.Consistent img
  (s.system.kernel.slots ++ s.system.buffers) l

theorem Inv.setFile {k : Kernel} (h : s.Inv img)
    (hk : k = s.system.kernel ∨ ∃ f file, k = s.system.kernel.setFile f file) (fs : VfsState) :
    Inv img ⟨s.system.withKernel k, fs⟩ := by
  obtain ⟨l, hc⟩ := h
  obtain rfl | ⟨f, file, rfl⟩ := hk
  · exact ⟨l, hc⟩
  · exact ⟨l, hc.setFile⟩

theorem step_chdir {path : CStr} (h : s.step img (.chdir path) = some s') :
    s' = s ∨ ∃ node, s' = s.withKernel (s.system.kernel.vfsCd node).2 := by
  unfold Os.step at h
  dsimp only at h
  split at h
  · exact Or.inl (Option.some.inj h).symm
  · next node _ => exact Or.inr ⟨node, (Option.some.inj h).symm⟩

theorem step_open {path : CStr} (h : s.step img (.open path) = some s') :
    s' = s ∨ ∃ node ret k, s.system.kernel.sysOpen img node = some (ret, k) ∧
      s' = s.withKernel k := by
  unfold Os.step at h
  dsimp only at h
  split at h
  · exact Or.inl (Option.some.inj h).symm
  · obtain ⟨⟨ret, s₁⟩, ho, rfl⟩ := Option.map_eq_some_iff.1 h
    obtain ⟨node, -, ho⟩ := Option.bind_eq_some_iff.1 ho
    obtain ⟨⟨ret', k⟩, hk, ho⟩ := Option.bind_eq_some_iff.1 ho
    cases ho
    exact Or.inr ⟨node, ret, k, hk, rfl⟩

theorem Inv.step (h : s.Inv img) (hs : s.step img call = some s') : s'.Inv img := by
  cases call with
  | task op =>
      obtain ⟨l, hc⟩ := h
      obtain ⟨system, hop, rfl⟩ := Option.map_eq_some_iff.1 hs
      exact System.step_files hop hc
  | vfs c =>
      cases hs
      exact h
  | chdir path =>
      obtain ⟨l, hc⟩ := h
      obtain rfl | ⟨node, rfl⟩ := step_chdir hs
      · exact ⟨l, hc⟩
      · obtain ⟨hc', hsame⟩ := hc.vfsCd
        exact ⟨l, hc'.sameFiles hsame⟩
  | «open» path =>
      obtain ⟨l, hc⟩ := h
      obtain rfl | ⟨node, ret, k, hk, rfl⟩ := step_open hs
      · exact ⟨l, hc⟩
      · exact ⟨l, hc.sysOpen hk⟩
  | close fd =>
      obtain ⟨l, hc⟩ := h
      cases hs
      exact ⟨l, hc.sysClose⟩
  | read fd r =>
      obtain ⟨⟨out, k⟩, hk, rfl⟩ := Option.map_eq_some_iff.1 hs
      exact h.setFile (Kernel.sysRead_cases hk) s.fs
  | write fd buf count =>
      cases hs
      exact h.setFile (Kernel.sysWrite_cases ..) _

theorem Inv.run {calls : List Syscall} (h : s.Inv img) (hs : s.run img calls = some s') :
    s'.Inv img :=
  foldlM_induction (P := Inv img) (fun _ _ _ _ hinv hstep => Inv.step hinv hstep) h hs

end Os

namespace Kernel

variable {img : Image} {k₀ k : Kernel} {buffers l : List ℕ}

/-- The tables after `kernel_main`: that of the kernel task, with at most three files. -/
theorem boot_files {magic : UInt32} {mbi : Pmm.MultibootInfo}
    (h : k₀.boot img magic mbi = some k) :
    Owns k.heap k.slots ∧ ∀ i ≥ 3, k.current.fdTable i = 0 := by
  obtain ⟨k₁, h1, h⟩ := Option.bind_eq_some_iff.1 h
  obtain ⟨m₂, _, h1⟩ := Option.bind_eq_some_iff.1 h1
  cases h1
  obtain ⟨k₂, h2, h⟩ := Option.bind_eq_some_iff.1 h
  obtain ⟨heap, machine, files, fdTable, rfl, _, ho, hfree⟩ :=
    initTaskFds_cases h2 (owns_initHeap _)
  cases h
  simp only [slots, current, setTask, setNext, Function.update_self, List.flatMap_cons,
    List.flatMap_nil, List.append_nil]
  exact ⟨ho, hfree⟩

theorem inv_boot {magic : UInt32} {mbi : Pmm.MultibootInfo}
    (h : k₀.boot img magic mbi = some k) (fs : VfsState) : (Os.start k fs).Inv img := by
  obtain ⟨_, _, _, _, _, _, hbooted⟩ := boot_cases h
  obtain ⟨⟨l, hc⟩, _⟩ := hbooted.inv
  refine ⟨l, hc.sameTasks ⟨rfl, rfl, rfl, rfl, rfl, rfl⟩ ?_⟩
  have hb : k.blocks img = [] := by simp [blocks, blocksOf, hbooted.alive]
  rw [System.start, hb]
  simpa [Os.start, System.start] using (boot_files h).1

/-! ### Descriptors -/

/-- Every file in a table is a block in use, which is in no other slot and is nothing else that
the kernel holds. -/
structure FilesOk (img : Image) (k : Kernel) (buffers : List ℕ) : Prop where
  live : ∀ t ∈ k.alive, ∀ i < MAX_FD, (k.tasks t).fdTable i ≠ 0 →
    Live k.heap ((k.tasks t).fdTable i)
  unshared : ∀ t ∈ k.alive, ∀ u ∈ k.alive, ∀ i < MAX_FD, ∀ j < MAX_FD,
    (k.tasks t).fdTable i ≠ 0 → (k.tasks t).fdTable i = (k.tasks u).fdTable j → t = u ∧ i = j
  apart : ∀ t ∈ k.alive, ∀ i < MAX_FD, (k.tasks t).fdTable i ≠ 0 →
    (k.tasks t).fdTable i ∉ k.blocks img ++ buffers

/-- `SYS_CLOSE` does nothing, or it takes the one pointer to a file in use out of its slot; at
most that file is freed. -/
def CloseOk (k : Kernel) (fd : ℤ) : Prop :=
  k.sysClose fd = (-1, k) ∨ ∃ f, Live k.heap f ∧
    (∀ t ∈ (k.sysClose fd).2.alive, ∀ i < MAX_FD, ((k.sysClose fd).2.tasks t).fdTable i ≠ f) ∧
    ((k.sysClose fd).2.heap = k.heap ∨ (k.sysClose fd).2.heap = Heap.kfree k.heap f)

theorem eq_of_mem_fds {x : Task} (hn : (fds x).Nodup) {i j : ℕ} (hi : i < MAX_FD) (hj : j < MAX_FD)
    (h0 : x.fdTable i ≠ 0) (h : x.fdTable i = x.fdTable j) : i = j := by
  unfold fds nonNull at hn
  rw [List.filter_map] at hn
  apply List.inj_on_of_nodup_map hn
  · simpa [hi] using h0
  · simpa [hj] using h ▸ h0
  · exact h

theorem Consistent.filesOk (h : Consistent img k (k.slots ++ buffers) l) :
    FilesOk img k buffers := by
  obtain ⟨hn1, hn2, happ⟩ := List.nodup_append.1 h.owns.nodup
  obtain ⟨hslots, _, happ'⟩ := List.nodup_append.1 hn2
  obtain ⟨hfds, htasks⟩ := List.nodup_flatMap.1 hslots
  have hmem : ∀ t ∈ k.alive, ∀ i < MAX_FD, (k.tasks t).fdTable i ≠ 0 →
      (k.tasks t).fdTable i ∈ fds (k.tasks t) :=
    fun t _ i hi h0 => mem_fds.2 ⟨h0, i, hi, rfl⟩
  have hslot : ∀ t ∈ k.alive, ∀ i < MAX_FD, (k.tasks t).fdTable i ≠ 0 →
      (k.tasks t).fdTable i ∈ k.slots :=
    fun t ht i hi h0 => mem_slots.2 ⟨h0, t, ht, i, hi, rfl⟩
  refine ⟨fun t ht i hi h0 => ?_, fun t ht u hu i hi j hj h0 he => ?_, fun t ht i hi h0 => ?_⟩
  · apply h.owns.live
    exact List.mem_append_right _ (List.mem_append_left _ (hslot t ht i hi h0))
  · by_cases htu : t = u
    · subst htu
      exact ⟨rfl, eq_of_mem_fds (hfds t ht) hi hj h0 he⟩
    · have : Std.Symm (Function.onFun List.Disjoint fun t => fds (k.tasks t)) :=
        ⟨fun _ _ hd => List.Disjoint.symm hd⟩
      have hdisj := htasks.forall ht hu htu
      exact absurd (he ▸ hmem u hu j hj (he ▸ h0)) (hdisj (hmem t ht i hi h0))
  · intro hb
    obtain hb | hb := List.mem_append.1 hb
    · exact happ _ hb _ (List.mem_append_left _ (hslot t ht i hi h0)) rfl
    · exact happ' _ (hslot t ht i hi h0) _ hb rfl

theorem Consistent.closeOk (h : Consistent img k (k.slots ++ buffers) l) (fd : ℤ) :
    CloseOk k fd := by
  obtain he | ⟨i, f, k', hi, rfl, hf, h0, he, hcl⟩ := sysClose_cases k fd
  · exact Or.inl he
  · have hp := slots_close h.nodup h.current_mem hi hf h0
    have hn := (List.nodup_append.1 (List.nodup_append.1 h.owns.nodup).2.1).1
    have hgone : f ∉ (k.setFd k.currentTask i 0).slots := (List.nodup_cons.1 (hp.nodup_iff.1 hn)).1
    refine Or.inr ⟨f, ?_, fun t ht j hj hfd => hgone ?_, ?_⟩
    · apply h.owns.live
      exact List.mem_append_right _ (List.mem_append_left _ (hp.mem_iff.2 (List.mem_cons_self ..)))
    · rw [he] at ht hfd
      cases hcl with
      | closed _ => exact mem_slots.2 ⟨h0, t, ht, j, hj, hfd⟩
      | freed _ => exact mem_slots.2 ⟨h0, t, ht, j, hj, hfd⟩
    · rw [he]
      cases hcl with
      | closed _ => exact Or.inl rfl
      | freed _ => exact Or.inr rfl

end Kernel

/-- **Descriptor tables**: in every state that a run of system calls reaches, every file in the
table of a task in the ring is a block in use and is in no other slot of any task; so
`SYS_CLOSE` frees no file that is still in a table, and none twice. -/
theorem run_descriptors {img : Image} {k₀ k : Kernel} {magic : UInt32} {mbi : Pmm.MultibootInfo}
    (hboot : k₀.boot img magic mbi = some k) (fs : VfsState) {calls : List Syscall} {s : Os}
    (hrun : (Os.start k fs).run img calls = some s) :
    s.system.kernel.RingOk img ∧ s.system.kernel.FilesOk img s.system.buffers ∧
      ∀ fd, s.system.kernel.CloseOk fd := by
  obtain ⟨l, hc⟩ := (Kernel.inv_boot hboot fs).run hrun
  exact ⟨hc.ringOk, hc.filesOk, hc.closeOk⟩

/-! ### The root directory opened on a small machine -/

/-- `SYS_OPEN` succeeds if there is room in the heap and in the table. -/
theorem Kernel.sysOpen_of_room {img : Image} {k : Kernel} (hr : Room k.heap 88)
    (h3 : k.current.fdTable 3 = 0) (node : VfsNode) :
    ∃ (i : ℕ) (k' : Kernel), k.sysOpen img (some node) = some ((i : ℤ), k') := by
  have hsize : alignedSize FILE_SIZE = 68 := by decide
  obtain ⟨⟨f, k₁⟩, hk, hf, _, htasks, hcur⟩ :=
    @kmalloc_of_room img k 88 0 hr FILE_SIZE (by decide) (by omega)
  dsimp only at hf htasks hcur
  have hcur' : k₁.current = k.current := by
    unfold current
    rw [htasks, hcur]
  obtain ⟨i, hi⟩ : ∃ i, (List.range MAX_FD).find?
      (fun i => decide (k₁.current.fdTable i = 0)) = some i := by
    apply Option.isSome_iff_exists.1
    rw [List.find?_isSome]
    exact ⟨3, by decide, by simp [hcur', h3]⟩
  have hcreate : k.createVfsFile img node =
      some (f, k₁.setFile f (Session.createVfsFile node)) := by
    rw [createVfsFile, hk]
    rfl
  refine ⟨i, (k₁.setFile f (Session.createVfsFile node)).setFd k₁.currentTask i f, ?_⟩
  simp only [sysOpen, hcreate, Option.bind_eq_bind, Option.bind_some, if_neg hf]
  change (match (List.range MAX_FD).find? (fun i => decide (k₁.current.fdTable i = 0)) with
    | none => _
    | some i => _) = _
  rw [hi]
  rfl

theorem resolve_slash (s : Os) : s.resolve slash = some (some s.system.kernel.vfsRoot) := rfl

/-- Once `kernel_main` is done, the root directory can be opened. -/
theorem exists_opened : ∃ k, blankKernel.boot smallImage Pmm.MULTIBOOT_BOOTLOADER_MAGIC smallMap =
    some k ∧ ∃ (i : ℕ) (s : Os),
      (Os.start k (VfsState.init blankDisk)).sysOpen smallImage slash = some ((i : ℤ), s) := by
  obtain ⟨k, hboot, hcalm⟩ := blankKernel_boot
  obtain ⟨i, k', ho⟩ := @Kernel.sysOpen_of_room smallImage k (Room.mono hcalm.room (by omega))
    ((Kernel.boot_files hboot).2 3 (le_refl 3)) k.vfsRoot
  refine ⟨k, hboot, i, (Os.start k (VfsState.init blankDisk)).withKernel k', ?_⟩
  unfold Os.sysOpen
  rw [resolve_slash, Option.bind_eq_bind, Option.bind_some]
  exact congrArg (fun r => r >>= fun r => some (r.1, (Os.start k _).withKernel r.2)) ho

/-- After the root directory has been opened and the standard input closed. -/
theorem run_descriptors_slash : ∃ k s,
    blankKernel.boot smallImage Pmm.MULTIBOOT_BOOTLOADER_MAGIC smallMap = some k ∧
    (Os.start k (VfsState.init blankDisk)).run smallImage [.open slash, .close 0] = some s ∧
    s.system.kernel.RingOk smallImage ∧
    s.system.kernel.FilesOk smallImage s.system.buffers ∧ ∀ fd, s.system.kernel.CloseOk fd := by
  obtain ⟨k, hboot, i, s, ho⟩ := exists_opened
  have hrun : (Os.start k (VfsState.init blankDisk)).run smallImage [.open slash, .close 0] =
      some (s.sysClose 0).2 := by
    simp [Os.run, Os.step, resolve_slash, ho]
  exact ⟨k, _, hboot, hrun, run_descriptors hboot _ hrun⟩

end NosmeriOs.Tasks
