import NosmeriOs.TaskFiles
import NosmeriOs.TaskLeftover
import NosmeriOs.VfsResolve

/-! # Programs from files (`task/task.cpp`, `fs/vfs.cpp`)

`create_user_process` in the states that a run of system calls reaches.

* `Os.Reached`: the states, with stores of user programs to their own memory between the calls.
  `Os.Settled` holds of all of them.
* `Os.Loads`: what `vfs_resolve_path` and `vfs_read` give the loader for a path.
* `reached_placed`: the regular file under a path is placed in the space of a new task, when no
  allocation fails. -/

namespace NosmeriOs.Tasks

open Bytes Vmm Vfs SimpleFs Heap Ledgers

/-! ### Calls that leave the context alone -/

namespace Kernel

/-- The descriptors, the files, the working directories and the heap may differ. -/
structure SameContext (k k' : Kernel) : Prop where
  machine : k'.machine = k.machine
  alive : k'.alive = k.alive
  nextPid : k'.nextPid = k.nextPid
  currentTask : k'.currentTask = k.currentTask
  esp0 : k'.esp0 = k.esp0
  tasks : ∀ t, SameTask (k.tasks t) (k'.tasks t)
  state : ∀ t, (k'.tasks t).state = (k.tasks t).state

/-- The context is kept, and so is the ledger. -/
structure Steady (img : Image) (k k' : Kernel) : Prop where
  context : k.ContextOk → k'.ContextOk
  onward : Onward img k k'

variable {img : Image} {k k' k'' : Kernel} {buffers l : List ℕ}

namespace SameContext

theorem refl (k : Kernel) : SameContext k k :=
  ⟨rfl, rfl, rfl, rfl, rfl, fun _ => .refl _, fun _ => rfl⟩

theorem trans (h : SameContext k k') (h' : SameContext k' k'') : SameContext k k'' :=
  ⟨h'.machine.trans h.machine, h'.alive.trans h.alive, h'.nextPid.trans h.nextPid,
    h'.currentTask.trans h.currentTask, h'.esp0.trans h.esp0,
    fun t => (h.tasks t).trans (h'.tasks t), fun t => (h'.state t).trans (h.state t)⟩

theorem setTask {t : ℕ} {x : Task} (hx : SameTask (k.tasks t) x)
    (hs : x.state = (k.tasks t).state) : SameContext k (k.setTask t x) := by
  refine ⟨rfl, rfl, rfl, rfl, rfl, fun u => ?_, fun u => ?_⟩
  all_goals
    rw [tasks_setTask]
    split_ifs with hu
  · rw [hu]
    exact hx
  · exact .refl _
  · rw [hu]
    exact hs
  · rfl

theorem setFd (k : Kernel) (t i f : ℕ) : SameContext k (k.setFd t i f) :=
  setTask ⟨rfl, rfl, rfl, rfl, rfl⟩ rfl

theorem setFile (k : Kernel) (f : ℕ) (file : File) : SameContext k (k.setFile f file) :=
  ⟨rfl, rfl, rfl, rfl, rfl, fun _ => .refl _, fun _ => rfl⟩

theorem kfree (k : Kernel) (p : ℕ) : SameContext k (k.kfree p) :=
  ⟨rfl, rfl, rfl, rfl, rfl, fun _ => .refl _, fun _ => rfl⟩

theorem vfsCd (k : Kernel) (node : Option VfsNode) : SameContext k (k.vfsCd node).2 := by
  unfold Kernel.vfsCd
  split
  · exact refl k
  · split_ifs
    · exact refl k
    · exact setTask ⟨rfl, rfl, rfl, rfl, rfl⟩ rfl

theorem sysClose (k : Kernel) (fd : ℤ) : SameContext k (k.sysClose fd).2 := by
  obtain he | ⟨i, f, k', -, -, -, -, he, hcl⟩ := sysClose_cases k fd
  · rw [he]
    exact refl k
  · rw [he]
    cases hcl with
    | closed _ => exact (setFile k f _).trans (setFd _ _ _ _)
    | freed _ => exact (kfree k f).trans (setFd _ _ _ _)

theorem of_setFile (h : k' = k ∨ ∃ f file, k' = k.setFile f file) : SameContext k k' := by
  obtain rfl | ⟨f, file, rfl⟩ := h
  · exact refl k'
  · exact setFile k f file

theorem steady (h : SameContext k k') : Steady img k k' := by
  refine ⟨fun hctx => hctx.congr h.currentTask (fun t ht hr => ?_) ?_ (by rw [h.machine]) h.esp0,
    ?_⟩
  · rw [h.alive] at ht
    rw [h.state] at hr
    exact ⟨ht, hr⟩
  · unfold Kernel.current
    rw [h.currentTask]
    exact h.tasks _
  · have hp : Persists k k' := ⟨h.alive ▸ List.Sublist.refl _, h.nextPid, h.tasks⟩
    refine .persists hp ?_ ?_ fun hclean => ?_
    · rw [h.machine]
    · rw [h.machine]
    · rw [← h.machine]
      exact hclean

end SameContext

namespace Steady

theorem refl (k : Kernel) : Steady img k k := (SameContext.refl k).steady

theorem trans (h : Steady img k k') (h' : Steady img k' k'') : Steady img k k'' :=
  ⟨fun hctx => h'.context (h.context hctx), h.onward.trans h'.onward⟩

theorem sysOpen {node : Option VfsNode} {ret : ℤ} (hctx : k.ContextOk)
    (hc : Consistent img k buffers l) (h : k.sysOpen img node = some (ret, k')) :
    Steady img k k' := by
  cases node with
  | none =>
      cases h
      exact refl k
  | some node =>
      obtain ⟨f, k₁, hk, ho⟩ := sysOpen_cases h hc
      obtain ⟨heap, m, rfl, hg, -⟩ := kmalloc_cases hk hc.owns
      have hs : SameTasks k { k with heap := heap, machine := m } :=
        ⟨rfl, rfl, rfl, rfl, rfl, rfl⟩
      have hfirst : Steady img k { k with heap := heap, machine := m } :=
        ⟨fun h => h.sameTasks hs hg.keeps.cr3, .grows hctx hc hs.persists hg⟩
      refine hfirst.trans (SameContext.steady ?_)
      cases ho with
      | noMemory _ => exact .setFile ..
      | noSlot _ _ => exact (SameContext.setFile _ _ _).trans (.kfree _ _)
      | opened i _ _ _ => exact (SameContext.setFile _ _ _).trans (.setFd _ _ _ _)

end Steady

end Kernel

/-! ### Runs -/

namespace Os

/-- The states of a run in which the programs also write to their memory. -/
inductive Reached (img : Image) : Os → Prop
  | boot {k₀ k : Kernel} {magic : UInt32} {mbi : Pmm.MultibootInfo} (fs : VfsState) :
      k₀.boot img magic mbi = some k → Reached img (Os.start k fs)
  | step {s s' : Os} {call : Syscall} : Reached img s → s.step img call = some s' → Reached img s'
  | userStore {s : Os} {addr : UInt32} (b : UInt8) : Reached img s → 0 < pdIdx addr →
      pdIdx addr < 768 → Reached img (s.withKernel (s.system.kernel.userStore addr b))

/-- What holds of all states reached. -/
structure Settled (img : Image) (s : Os) : Prop where
  inv : s.Inv img
  context : s.system.kernel.ContextOk
  framed : s.system.kernel.Framed img

variable {img : Image} {s s' : Os} {call : Syscall}

theorem Inv.consistent (h : s.Inv img) :
    ∃ l, s.system.kernel.Consistent img s.system.buffers l := by
  obtain ⟨l, hc⟩ := h
  have hn := (List.nodup_append.1 (List.nodup_append.1 hc.owns.nodup).2.1).2.1
  exact ⟨l, hc.buffers_subset hn (List.subset_append_right ..)⟩

theorem Settled.steady_step (h : Settled img s) (hs : s.step img call = some s') :
    Kernel.Steady img s.system.kernel s'.system.kernel := by
  obtain ⟨l, hc⟩ := h.inv.consistent
  cases call with
  | task op =>
      obtain ⟨system, hop, rfl⟩ := Option.map_eq_some_iff.1 hs
      exact ⟨fun hctx => System.contextOk_step hc hctx hop, System.onward_step hc h.context hop⟩
  | vfs c =>
      cases hs
      exact .refl _
  | chdir path =>
      obtain rfl | ⟨node, rfl⟩ := step_chdir hs
      · exact .refl _
      · exact (Kernel.SameContext.vfsCd _ _).steady
  | «open» path =>
      obtain rfl | ⟨node, ret, k, hk, rfl⟩ := step_open hs
      · exact .refl _
      · exact .sysOpen h.context hc hk
  | close fd =>
      cases hs
      exact (Kernel.SameContext.sysClose _ fd).steady
  | read fd r =>
      obtain ⟨⟨out, k⟩, hk, rfl⟩ := Option.map_eq_some_iff.1 hs
      exact (Kernel.SameContext.of_setFile (Kernel.sysRead_cases hk)).steady
  | write fd buf count =>
      cases hs
      exact (Kernel.SameContext.of_setFile (Kernel.sysWrite_cases ..)).steady

theorem Settled.step (h : Settled img s) (hs : s.step img call = some s') : Settled img s' := by
  have hsteady := h.steady_step hs
  exact ⟨h.inv.step hs, hsteady.context h.context, h.framed.onward hsteady.onward⟩

theorem Settled.userStore (h : Settled img s) {addr : UInt32} (b : UInt8) (h0 : 0 < pdIdx addr)
    (hi : pdIdx addr < 768) :
    Settled img (s.withKernel (s.system.kernel.userStore addr b)) := by
  obtain ⟨l, hc⟩ := h.inv.consistent
  have hframed := h.framed.userStore h.context hc b h0 hi
  obtain ⟨l, hc⟩ := h.inv
  obtain ⟨h1, h2, h3⟩ := h.context
  obtain he | ⟨f, -, he⟩ := s.system.kernel.userStore_cases addr b
  · rw [he]
    exact h
  · rw [he] at hframed ⊢
    exact ⟨⟨l, ⟨hc.ring, hc.alive, hc.kernel, hc.kernelId, hc.owns⟩⟩, ⟨h1, h2, h3⟩, hframed⟩

theorem Reached.settled (h : Reached img s) : Settled img s := by
  induction h with
  | boot fs hboot =>
      exact ⟨Kernel.inv_boot hboot fs, Kernel.contextOk_boot hboot, Kernel.framed_boot hboot⟩
  | step _ hs ih => exact ih.step hs
  | userStore b _ h0 hi ih => exact ih.userStore b h0 hi

/-! ### Loading -/

/-- The path is that of a regular file with content `c`. -/
def RegularFile (s : Os) (path : CStr) (c : List UInt8) : Prop :=
  components path ≠ [] ∧ ∃ N, s.resolve path = some (some N) ∧ N.isDirectory = false ∧
    FileHolds s.fs.io.disk N.inodeIdx.toNat c

/-- `vfs_resolve_path` finds a node under the path, and `vfs_read` stores the file's bytes. -/
def Loads (s : Os) (path : CStr) (file : Kernel.Program) : Prop :=
  ∃ N ret, s.resolve path = some (some N) ∧ file.size = N.size ∧
    vfsRead s.fs.io N N.size = some (ret, file.data)

/-- A regular file is loaded as it is. -/
theorem RegularFile.loads {path : CStr} {c : List UInt8} (h : s.RegularFile path c) :
    ∃ file, s.Loads path file ∧ file.size = UInt32.ofNat c.length ∧ file.data = c := by
  obtain ⟨hpath, N, hN, hf, hc⟩ := h
  obtain ⟨hsize, hread⟩ := vfsRead_of_resolve hpath hN hf hc
  have hle := hc.le
  have hall := hread N.size
  rw [hsize, List.take_length] at hall
  have hsize' : N.size = UInt32.ofNat c.length := by
    rw [← hsize, UInt32.ofNat_toNat]
  exact ⟨⟨N.size, c, Or.inr ⟨hsize.symm, by omega⟩⟩, ⟨N, _, hN, rfl, hall⟩, hsize', rfl⟩

end Os

theorem Kernel.boot_vfsRoot {img : Image} {k₀ k : Kernel} {magic : UInt32}
    {mbi : Pmm.MultibootInfo} (h : k₀.boot img magic mbi = some k) :
    k.vfsRoot = k₀.vfsRoot ∧ k.current.cwd = k₀.vfsRoot := by
  obtain ⟨k₁, h1, h⟩ := Option.bind_eq_some_iff.1 h
  obtain ⟨m₂, -, h1⟩ := Option.bind_eq_some_iff.1 h1
  cases h1
  obtain ⟨k₂, h2, h⟩ := Option.bind_eq_some_iff.1 h
  obtain ⟨_, _, _, _, rfl, -⟩ := initTaskFds_cases h2 (owns_initHeap _)
  cases h
  exact ⟨rfl, by simp [Kernel.current, Kernel.setNext, Kernel.setTask]⟩

/-- The kernel before `kernel_main`, with the root of the disk with the file `a`. -/
def rootedKernel : Kernel := { blankKernel with vfsRoot := twoBytes.vfsRoot }

/-- `/a` is a regular file after `kernel_main`. -/
theorem regularFile_first {k : Kernel} {fs : VfsState} {c : List UInt8} (hinv : FsInv fs.io.disk)
    (h : FirstFile fs.io.disk) (hc : FileHolds fs.io.disk 1 c)
    (hdir : k.vfsRoot.isDirectory = true) (h0 : k.vfsRoot.inodeIdx = 0) :
    (Os.start k fs).RegularFile firstPath c :=
  ⟨by decide, _, h.resolvePath hinv hdir h0 _, isDirectory_firstNode h, fileHolds_firstNode hc⟩

theorem regularFile_twoBytes {img : Image} {k : Kernel} {magic : UInt32} {mbi : Pmm.MultibootInfo}
    (h : rootedKernel.boot img magic mbi = some k) :
    (Os.start k twoBytes.fs).RegularFile firstPath [0, 1] := by
  have hroot : k.vfsRoot = twoBytes.vfsRoot := by
    rw [(Kernel.boot_vfsRoot h).1]
    rfl
  apply regularFile_first twoBytes_ok.fs.inv twoBytes_spec.1 twoBytes_spec.2
  · rw [hroot]
    rfl
  · rw [hroot]
    rfl

end NosmeriOs.Tasks
