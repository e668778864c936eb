import NosmeriOs.Tasks
import NosmeriOs.VfsFiles

/-! # File handles across system calls

A node holds the inode of its directory and a name, and every access looks the name up again;
`simplefs_write` itself does not look at the kind of the inode it finds.  So a handle is only
as good as the guarantee that the name keeps leading to the same file.

* `Session` adds to the mounted file system what the system calls keep: a working directory
  and a descriptor table for each task (`arch/x86/syscall.cpp`, `fs/file.cpp`).
* `Session.Ok`: every node held anywhere is good (`NodeOk`).  Nodes stay good because no call
  ever removes an entry or changes the kind of an inode (`Grows`).
* `run_file_handle`: whatever happens after a file node has been obtained, its name leads to
  the same file, and reads and writes through it touch no other inode. -/

namespace NosmeriOs.Vfs

open Bytes SimpleFs Tasks

/-! ### Sessions -/

structure Session where
  fs : VfsState
  vfsRoot : VfsNode
  cwd : ℕ → VfsNode
  fdTable : ℕ → ℕ → Option File

namespace Session

/-- `create_vfs_file`. -/
def createVfsFile (node : VfsNode) : File := ⟨.regular, .vfsFileOps, node, 0, 0, 1⟩

/-- A file for a standard descriptor; its `node` is not set by the code and never read. -/
def stdFile (type : FileType) (ops : FileOps) : File :=
  ⟨type, ops, ⟨⟨[], CStr.noNul_nil⟩, 0, 0, 0, 0⟩, 0, 0, 1⟩

/-- The descriptors of a new task. -/
def stdTable : ℕ → Option File
  | 0 => some (stdFile .stdin .stdinOps)
  | 1 => some (stdFile .stdout .stdoutOps)
  | 2 => some (stdFile .stderr .stderrOps)
  | _ => none

/-- After `vfs_init`: every task starts in the root directory. -/
def init (d : Disk) : Session :=
  ⟨VfsState.init d, (vfsInit ⟨d, []⟩).2.2, fun _ => (vfsInit ⟨d, []⟩).2.2, fun _ => stdTable⟩

/-- `vfs_resolve_path` for a task.  A call whose path overruns the token plays no part in a run: no
node is found, so the state stays. -/
def resolve (s : Session) (task : ℕ) (path : CStr) : Option VfsNode :=
  (vfsResolvePath s.fs.io s.vfsRoot (s.cwd task) path).getD none

/-- Note a node that a call returned. -/
def note (s : Session) (n : VfsNode) : Session := { s with fs := s.fs.note (some n) }

def setFd (s : Session) (task fd : ℕ) (f : Option File) : Session :=
  { s with fdTable := Function.update s.fdTable task (Function.update (s.fdTable task) fd f) }

def vfsCd (s : Session) (task : ℕ) (path : CStr) : ℤ × Session :=
  match s.resolve task path with
  | none => (-1, s)
  | some target =>
      if !target.isDirectory then (-1, s.note target)
      else (0, { s.note target with cwd := Function.update s.cwd task target })

/-- `SYS_OPEN`; `allocated` tells whether `kmalloc` found memory for the `File`. -/
def sysOpen (s : Session) (task : ℕ) (path : CStr) (allocated : Bool) : ℤ × Session :=
  match s.resolve task path with
  | none => (-1, s)
  | some node =>
      if !allocated then (-1, s.note node)
      else match (List.range MAX_FD).find? fun i => (s.fdTable task i).isNone with
        | none => (-1, s.note node)
        | some i => (i, (s.note node).setFd task i (some (createVfsFile node)))

/-- `SYS_CLOSE`. -/
def sysClose (s : Session) (task : ℕ) (fd : ℤ) : ℤ × Session :=
  if fd < 0 ∨ (MAX_FD : ℤ) ≤ fd then (-1, s)
  else match s.fdTable task fd.toNat with
    | none => (-1, s)
    | some _ => (0, s.setFd task fd.toNat none)

/-- `vfs_file_write`. -/
def vfsFileWrite (s : Session) (task fd : ℕ) (file : File) (buf : ℕ → UInt8) (count : UInt32) :
    ℤ × Session :=
  let (bytes, io, node) := vfsWrite s.fs.io s.fs.sb file.node buf count
  (bytes, { s with fs := { s.fs with io := io } }.setFd task fd
    (some { file with
      node := node
      offset := if 0 < bytes then file.offset + cUInt bytes else file.offset }))

/-- `SYS_WRITE`; output to the screen is left out. -/
def sysWrite (s : Session) (task : ℕ) (fd : ℤ) (buf : ℕ → UInt8) (count : UInt32) : ℤ × Session :=
  if fd < 0 ∨ (MAX_FD : ℤ) ≤ fd then (-1, s)
  else match s.fdTable task fd.toNat with
    | none => (-1, s)
    | some file => match file.ops with
      | .stdinOps => (-1, s)
      | .stdoutOps => (cInt count, s)
      | .stderrOps => (cInt count, s)
      | .vfsFileOps => s.vfsFileWrite task fd.toNat file buf count

end Session

inductive SessionOp where
  | call (c : VfsCall)
  | cd (task : ℕ) (path : CStr)
  | open (task : ℕ) (path : CStr) (allocated : Bool)
  | close (task : ℕ) (fd : ℤ)
  | write (task : ℕ) (fd : ℤ) (buf : ℕ → UInt8) (count : UInt32)

namespace Session

def step (s : Session) : SessionOp → Session
  | .call c => { s with fs := s.fs.call c }
  | .cd task path => (s.vfsCd task path).2
  | .open task path allocated => (s.sysOpen task path allocated).2
  | .close task fd => (s.sysClose task fd).2
  | .write task fd buf count => (s.sysWrite task fd buf count).2

def run (s : Session) (ops : List SessionOp) : Session := ops.foldl step s

/-! ### The invariant -/

/-- Every node held in the session is good. -/
structure Ok (s : Session) : Prop where
  fs : s.fs.Ok
  root : NodeOk s.fs.io.disk s.vfsRoot
  cwd : ∀ t, NodeOk s.fs.io.disk (s.cwd t)
  fd : ∀ t i f, s.fdTable t i = some f → f.ops = .vfsFileOps → NodeOk s.fs.io.disk f.node

/-- The descriptors of a new task lead to no file. -/
theorem stdTable_ops {i : ℕ} {f : File} (h : stdTable i = some f) : f.ops ≠ .vfsFileOps := by
  intro hops
  obtain h0 | h1 | h2 | h3 : i = 0 ∨ i = 1 ∨ i = 2 ∨ 3 ≤ i := by omega
  · subst h0
    cases h
    cases hops
  · subst h1
    cases h
    cases hops
  · subst h2
    cases h
    cases hops
  · obtain ⟨m, rfl⟩ := Nat.exists_eq_add_of_le' h3
    cases h

theorem ok_init {d : Disk} (hd : needsFormat d = true) : (Session.init d).Ok := by
  have hfs := VfsState.Ok.init hd
  have hroot : NodeOk (VfsState.init d).io.disk (vfsInit ⟨d, []⟩).2.2 :=
    hfs.nodes _ (List.mem_singleton.2 rfl)
  exact ⟨hfs, hroot, fun _ => hroot, fun _ _ _ hf hops => absurd hops (stdTable_ops hf)⟩

namespace Ok

variable {s : Session}

theorem resolve (h : s.Ok) {task : ℕ} {path : CStr} {n : VfsNode}
    (hn : s.resolve task path = some n) : NodeOk s.fs.io.disk n := by
  unfold Session.resolve at hn
  cases hr : vfsResolvePath s.fs.io s.vfsRoot (s.cwd task) path with
  | none => simp [hr] at hn
  | some r =>
      rw [hr, Option.getD_some] at hn
      rw [hn] at hr
      exact vfsResolvePath_nodeOk h.fs.inv path h.root (h.cwd task) hr

theorem note (h : s.Ok) {n : VfsNode} (hn : NodeOk s.fs.io.disk n) : (s.note n).Ok := by
  refine ⟨h.fs.note fun m hm => ?_, h.root, h.cwd, h.fd⟩
  cases hm
  exact hn

theorem setFd (h : s.Ok) {task fd : ℕ} {f : Option File}
    (hf : ∀ g, f = some g → g.ops = .vfsFileOps → NodeOk s.fs.io.disk g.node) :
    (s.setFd task fd f).Ok := by
  refine ⟨h.fs, h.root, h.cwd, fun t i g hg hops => ?_⟩
  simp only [Session.setFd, Function.update_apply] at hg
  by_cases ht : t = task
  · rw [if_pos ht, Function.update_apply] at hg
    by_cases hi : i = fd
    · rw [if_pos hi] at hg
      exact hf g hg hops
    · rw [if_neg hi] at hg
      exact h.fd _ i g hg hops
  · rw [if_neg ht] at hg
    exact h.fd t i g hg hops

/-- The nodes held stay good when the disk only grows. -/
theorem of_grows (h : s.Ok) {fs : VfsState} (hfs : fs.Ok) (hg : Grows s.fs.io.disk fs.io.disk) :
    Session.Ok { s with fs := fs } :=
  ⟨hfs, h.root.grows hg, fun t => (h.cwd t).grows hg,
    fun t i f hf hops => (h.fd t i f hf hops).grows hg⟩

/-- A step of a good session: good again, on a disk that has only grown. -/
def Kept (s s' : Session) : Prop := s'.Ok ∧ Grows s.fs.io.disk s'.fs.io.disk

theorem kept_refl (h : s.Ok) : Kept s s := ⟨h, Grows.refl _⟩

theorem kept_note (h : s.Ok) {n : VfsNode} (hn : NodeOk s.fs.io.disk n) : Kept s (s.note n) :=
  ⟨h.note hn, Grows.refl _⟩

theorem vfsCd (h : s.Ok) (task : ℕ) (path : CStr) : Kept s (s.vfsCd task path).2 := by
  unfold Session.vfsCd
  cases hr : s.resolve task path with
  | none => exact h.kept_refl
  | some target =>
      have hn := h.resolve hr
      dsimp only
      split_ifs
      · exact h.kept_note hn
      · refine ⟨⟨(h.note hn).fs, h.root, fun t => ?_, h.fd⟩, Grows.refl _⟩
        dsimp only
        rw [Function.update_apply]
        by_cases ht : t = task
        · rw [if_pos ht]
          exact hn
        · rw [if_neg ht]
          exact h.cwd t

theorem sysOpen (h : s.Ok) (task : ℕ) (path : CStr) (allocated : Bool) :
    Kept s (s.sysOpen task path allocated).2 := by
  unfold Session.sysOpen
  cases hr : s.resolve task path with
  | none => exact h.kept_refl
  | some node =>
      have hn := h.resolve hr
      dsimp only
      split_ifs
      · exact h.kept_note hn
      · cases (List.range MAX_FD).find? fun i => (s.fdTable task i).isNone with
        | none => exact h.kept_note hn
        | some i =>
            refine ⟨(h.note hn).setFd fun g hg _ => ?_, Grows.refl _⟩
            cases hg
            exact hn

theorem sysClose (h : s.Ok) (task : ℕ) (fd : ℤ) : Kept s (s.sysClose task fd).2 := by
  unfold Session.sysClose
  split_ifs
  · exact h.kept_refl
  · cases s.fdTable task fd.toNat with
    | none => exact h.kept_refl
    | some f =>
        refine ⟨h.setFd fun g hg _ => ?_, Grows.refl _⟩
        cases hg

theorem vfsFileWrite (h : s.Ok) {task fd : ℕ} {file : File} (hn : NodeOk s.fs.io.disk file.node)
    (buf : ℕ → UInt8) (count : UInt32) : Kept s (s.vfsFileWrite task fd file buf count).2 := by
  have hsb : s.fs.sb.dataBlockStart = 17 := by
    rw [h.fs.sb]
    rfl
  obtain ⟨hrun, hnode⟩ := vfsWrite_spec h.fs.inv hsb hn buf count
  have hg := hrun.grows h.fs.inv
  have hfs := h.fs.of_safeRun hrun fun m hm => (h.fs.nodes m hm).grows hg
  refine ⟨(h.of_grows hfs hg).setFd fun g hg' _ => ?_, hg⟩
  cases hg'
  exact hnode

theorem sysWrite (h : s.Ok) (task : ℕ) (fd : ℤ) (buf : ℕ → UInt8) (count : UInt32) :
    Kept s (s.sysWrite task fd buf count).2 := by
  unfold Session.sysWrite
  split_ifs
  · exact h.kept_refl
  · cases hf : s.fdTable task fd.toNat with
    | none => exact h.kept_refl
    | some file =>
        dsimp only
        cases hops : file.ops with
        | stdinOps => exact h.kept_refl
        | stdoutOps => exact h.kept_refl
        | stderrOps => exact h.kept_refl
        | vfsFileOps => exact h.vfsFileWrite (h.fd task _ file hf hops) buf count

/-- One step keeps the nodes good, and the disk only grows. -/
theorem step (h : s.Ok) (op : SessionOp) : Kept s (s.step op) := by
  cases op with
  | call c =>
      obtain ⟨hfs, hrun⟩ := h.fs.call c
      exact ⟨h.of_grows hfs (hrun.grows h.fs.inv), hrun.grows h.fs.inv⟩
  | cd task path => exact h.vfsCd task path
  | «open» task path allocated => exact h.sysOpen task path allocated
  | close task fd => exact h.sysClose task fd
  | write task fd buf count => exact h.sysWrite task fd buf count

theorem run (h : s.Ok) (ops : List SessionOp) : Kept s (s.run ops) := by
  induction ops using List.reverseRecOn with
  | nil => exact h.kept_refl
  | append_singleton ops op ih =>
      have hrun : s.run (ops ++ [op]) = (s.run ops).step op := by
        simp [Session.run]
      obtain ⟨hok, hg⟩ := ih
      obtain ⟨hok', hg'⟩ := hok.step op
      rw [hrun]
      exact ⟨hok', hg.trans hg'⟩

end Ok

end Session

/-! ### File handles -/

/-- What a read of at most `n` bytes of the file with this inode gives. -/
def readInodeData (io : Io) (k : ℕ) (n : UInt32) : Option (ℤ × List UInt8) :=
  (readLoop io (inodeAt io.disk k) ((bytesToRead (inodeAt io.disk k) n + 511) / 512).toNat 0
    (bytesToRead (inodeAt io.disk k) n)).map fun bytes =>
      (cInt (bytesToRead (inodeAt io.disk k) n), bytes)

/-- The handle `N` is good: its name leads to its inode, a file in use, and every access through
it or a copy `M` of it acts on that inode and on no other. -/
structure HandleOk (io : Io) (sb : Superblock) (N : VfsNode) : Prop where
  lookup : simplefsLookup io N.parentIdx N.name = (N.inodeIdx.toNat : ℤ)
  file : IsFile io.disk N.inodeIdx.toNat
  read : ∀ M : VfsNode, M.parentIdx = N.parentIdx → M.name = N.name → M.flags = N.flags →
    ∀ n, vfsRead io M n = readInodeData io N.inodeIdx.toNat n
  write : ∀ M : VfsNode, M.parentIdx = N.parentIdx → M.name = N.name → M.flags = N.flags →
    ∀ buf size, ∀ i < INODE_COUNT, (inodeAt io.disk i).isUsed = true → i ≠ N.inodeIdx.toNat →
      SameNode io.disk (vfsWrite io sb M buf size).2.1.disk i

theorem SameNode.refl (d : Disk) (i : ℕ) : SameNode d d i := ⟨rfl, fun _ _ _ => rfl⟩

theorem NodeOk.handleOk {io : Io} {sb : Superblock} (h : FsInv io.disk)
    (hsb : sb.dataBlockStart = 17) {N : VfsNode} (hn : NodeOk io.disk N)
    (hf : N.isDirectory = false) : HandleOk io sb N := by
  obtain ⟨hl, hfile⟩ := hn.handle h hf
  have hcu : (cUInt (N.inodeIdx.toNat : ℤ)).toNat = N.inodeIdx.toNat := by
    rw [cUInt_natCast, toNat_ofNat_lt hfile.lt]
  refine ⟨hl, hfile, ?_, ?_⟩
  · intro M hp hname hflags n
    have hM : ¬ M.isDirectory = true := by
      rw [VfsNode.isDirectory, hflags]
      exact by simpa [VfsNode.isDirectory] using hf
    unfold vfsRead
    rw [if_neg hM, simplefsRead_eq, hp, hname, hl, hcu, if_neg (by omega),
      if_neg (by simp [hfile.file])]
    rfl
  · intro M hp hname hflags buf size i hi hu hik
    have hM : M.isDirectory = false := by
      rw [VfsNode.isDirectory, hflags]
      exact hf
    by_cases hbig : 30 < ((size + 511) / 512).toNat
    · rw [(vfsWrite_of_large hM buf hbig).2]
      exact SameNode.refl _ i
    · have hlM : simplefsLookup io M.parentIdx M.name = (N.inodeIdx.toNat : ℤ) := by
        rw [hp, hname]
        exact hl
      obtain ⟨hret, hdone⟩ := simplefsWrite_done h hsb hlM hfile buf (Nat.le_of_not_lt hbig)
      rw [(vfsWrite_of_file hM buf size hret).2]
      exact hdone.same i hi hu hik

/-- **File handles stay valid.**  A file node obtained in a run is a good handle after every
continuation of the run. -/
theorem run_file_handle (d : Disk) (hd : needsFormat d = true) (ops ops' : List SessionOp)
    (N : VfsNode) (hN : N ∈ ((Session.init d).run ops).fs.nodes) (hf : N.flags = VFS_FILE) :
    HandleOk (((Session.init d).run ops).run ops').fs.io
      (((Session.init d).run ops).run ops').fs.sb N := by
  have hok := ((Session.ok_init hd).run ops).1
  obtain ⟨hok', hg⟩ := hok.run ops'
  refine NodeOk.handleOk hok'.fs.inv ?_ ((hok.fs.nodes N hN).grows hg) (isDirectory_of_flags hf)
  rw [hok'.fs.sb]
  rfl

theorem run_file_handle_first : ∃ N,
    N ∈ ((Session.init blankDisk).run [.call (.create 0 (fileName 0))]).fs.nodes ∧
    N.flags = VFS_FILE ∧
    HandleOk (((Session.init blankDisk).run [.call (.create 0 (fileName 0))]).run
        [.open 0 ⟨[47, 97], by decide⟩ true, .write 0 3 (fun _ => 7) 600]).fs.io
      (((Session.init blankDisk).run [.call (.create 0 (fileName 0))]).run
        [.open 0 ⟨[47, 97], by decide⟩ true, .write 0 3 (fun _ => 7) 600]).fs.sb N := by
  have hd : needsFormat blankDisk = true := by decide
  obtain ⟨N, hN, hf⟩ := first_file_node hd
  exact ⟨N, List.mem_of_getElem? hN, hf,
    run_file_handle blankDisk hd _ _ N (List.mem_of_getElem? hN) hf⟩

end NosmeriOs.Vfs
