import NosmeriOs.VfsPath
import NosmeriOs.VfsSession

/-! # Working directories and paths

* `run_getcwd_resolves`: along every run of a session with task creation, the path that
  `vfs_getcwd` gives leads back to the working directory.  A directory may be created with a
  `/` in its name, but no task ever gets below it: `CwdOk` keeps every working directory
  `PlacedBy SlashFree`.
* `run_created_resolves_iff`: what was just created is found behind the path of its directory
  exactly when neither its name nor a name on the way to that directory has a `/` in it. -/

namespace NosmeriOs.Vfs

open Bytes SimpleFs Paths

theorem IsNode.grows {d d' : Disk} (hg : Grows d d') {n : VfsNode} {k : ℕ} (hk : k < 64)
    (hu : (inodeAt d k).isUsed = true) (h : IsNode d n k) : IsNode d' n k :=
  ⟨h.idx, by rw [h.flags, (hg.kind k hk hu).2]⟩

theorem IsNode.placed {d : Disk} {n : VfsNode} (h : IsNode d n 0) (P : CStr → Prop) :
    PlacedBy P d n := by
  refine ⟨[], ?_, by simp⟩
  rw [h.idx]
  exact .nil

theorem isNode_root {d : Disk} (hd : needsFormat d = true) :
    IsNode (VfsState.init d).io.disk (vfsInit ⟨d, []⟩).2.2 0 := by
  have hroot := (VfsState.Ok.init hd).inv.tree.root
  refine ⟨rfl, ?_⟩
  rw [hroot.dir]
  rfl

/-! ### Tasks and their working directories -/

inductive CwdOp where
  | session (op : SessionOp)
  /-- `create_task` and `create_user_task`; there is no current task before `init_tasking`. -/
  | createTask (current : Option ℕ) (newTask : ℕ)

namespace Session

/-- The files and the working directory of a new task. -/
def createTask (s : Session) (current : Option ℕ) (newTask : ℕ) : Session :=
  { s with
    cwd := Function.update s.cwd newTask (match current with
      | some t => s.cwd t
      | none => s.vfsRoot)
    fdTable := Function.update s.fdTable newTask stdTable }

def cwdStep (s : Session) : CwdOp → Session
  | .session op => s.step op
  | .createTask current newTask => s.createTask current newTask

def cwdRun (s : Session) (ops : List CwdOp) : Session := ops.foldl cwdStep s

/-- `vfs_getcwd` of a task. -/
def vfsGetcwd (s : Session) (task : ℕ) (buf : ℤ → UInt8) (bufSize : UInt32) :
    Option (ℤ → UInt8) :=
  vfsGetPath s.fs.io (s.cwd task) bufSize buf

/-- Only `vfs_cd` changes a working directory, to one that it has resolved. -/
theorem step_cwd (s : Session) (op : SessionOp) : (s.step op).vfsRoot = s.vfsRoot ∧
    ((s.step op).cwd = s.cwd ∨ ∃ task path target, s.resolve task path = some target ∧
      target.isDirectory = true ∧ (s.step op).cwd = Function.update s.cwd task target) := by
  cases op with
  | call c => exact ⟨rfl, Or.inl rfl⟩
  | cd task path =>
      simp only [step, vfsCd]
      cases hr : s.resolve task path with
      | none => exact ⟨rfl, Or.inl rfl⟩
      | some target =>
          dsimp only
          split_ifs with hd
          · exact ⟨rfl, Or.inl rfl⟩
          · exact ⟨rfl, Or.inr ⟨task, path, target, hr, by simpa using hd, rfl⟩⟩
  | «open» task path allocated =>
      simp only [step, sysOpen]
      cases s.resolve task path with
      | none => exact ⟨rfl, Or.inl rfl⟩
      | some node =>
          dsimp only
          split_ifs
          · exact ⟨rfl, Or.inl rfl⟩
          · cases (List.range Tasks.MAX_FD).find? fun i => (s.fdTable task i).isNone with
            | none => exact ⟨rfl, Or.inl rfl⟩
            | some i => exact ⟨rfl, Or.inl rfl⟩
  | close task fd =>
      simp only [step, sysClose]
      split_ifs
      · exact ⟨rfl, Or.inl rfl⟩
      · cases s.fdTable task fd.toNat with
        | none => exact ⟨rfl, Or.inl rfl⟩
        | some f => exact ⟨rfl, Or.inl rfl⟩
  | write task fd buf count =>
      simp only [step, sysWrite]
      split_ifs
      · exact ⟨rfl, Or.inl rfl⟩
      · cases s.fdTable task fd.toNat with
        | none => exact ⟨rfl, Or.inl rfl⟩
        | some file =>
            dsimp only
            cases file.ops with
            | stdinOps => exact ⟨rfl, Or.inl rfl⟩
            | stdoutOps => exact ⟨rfl, Or.inl rfl⟩
            | stderrOps => exact ⟨rfl, Or.inl rfl⟩
            | vfsFileOps => exact ⟨rfl, Or.inl rfl⟩

/-- No directory on the way to a working directory has a `/` in its name. -/
structure CwdOk (s : Session) : Prop where
  ok : s.Ok
  root : IsNode s.fs.io.disk s.vfsRoot 0
  dir : ∀ t, (s.cwd t).isDirectory = true
  placed : ∀ t, PlacedBy SlashFree s.fs.io.disk (s.cwd t)

namespace CwdOk

variable {s : Session}

theorem init {d : Disk} (hd : needsFormat d = true) : (Session.init d).CwdOk := by
  have hroot := isNode_root hd
  have hdir := (VfsState.Ok.init hd).inv.tree.root.dir
  exact ⟨ok_init hd, hroot, fun _ => hroot.isDirectory hdir, fun _ => hroot.placed _⟩

theorem root_dir (h : s.CwdOk) : s.vfsRoot.isDirectory = true :=
  h.root.isDirectory h.ok.fs.inv.tree.root.dir

theorem resolve (h : s.CwdOk) {task : ℕ} {path : CStr} {target : VfsNode}
    (hr : s.resolve task path = some target) : PlacedBy SlashFree s.fs.io.disk target := by
  unfold Session.resolve at hr
  cases hv : vfsResolvePath s.fs.io s.vfsRoot (s.cwd task) path with
  | none => simp [hv] at hr
  | some r =>
      rw [hv, Option.getD_some] at hr
      rw [hr] at hv
      refine PlacedBy.resolve h.ok.fs.inv ?_ ?_ hv
      · unfold startOf
        split_ifs
        · exact h.ok.root
        · exact h.ok.cwd task
      · unfold startOf
        split_ifs
        · exact h.root.placed _
        · exact h.placed task

theorem step (h : s.CwdOk) (op : SessionOp) : (s.step op).CwdOk := by
  obtain ⟨hok, hg⟩ := h.ok.step op
  obtain ⟨hroot, hcwd⟩ := s.step_cwd op
  have hr := h.ok.fs.inv.tree.root
  refine ⟨hok, ?_, fun t => ?_, fun t => ?_⟩
  · rw [hroot]
    exact h.root.grows hg hr.lt hr.used
  · obtain hc | ⟨task, path, target, -, hdir, hc⟩ := hcwd
    · rw [hc]
      exact h.dir t
    · rw [hc, Function.update_apply]
      split_ifs
      · exact hdir
      · exact h.dir t
  · apply PlacedBy.grows hg
    obtain hc | ⟨task, path, target, htarget, -, hc⟩ := hcwd
    · rw [hc]
      exact h.placed t
    · rw [hc, Function.update_apply]
      split_ifs
      · exact h.resolve htarget
      · exact h.placed t

/-- A new task starts where its parent is. -/
theorem createTask (h : s.CwdOk) (current : Option ℕ) (newTask : ℕ) :
    (s.createTask current newTask).CwdOk := by
  have hnew : ∀ {Q : VfsNode → Prop}, Q s.vfsRoot → (∀ t, Q (s.cwd t)) → ∀ t,
      Q ((s.createTask current newTask).cwd t) := by
    intro Q hroot hcwd t
    simp only [Session.createTask, Function.update_apply]
    split_ifs
    · cases current with
      | none => exact hroot
      | some c => exact hcwd c
    · exact hcwd t
  refine ⟨⟨h.ok.fs, h.ok.root, hnew h.ok.root h.ok.cwd, fun t i f hf hops => ?_⟩, h.root,
    hnew (Q := fun n => n.isDirectory = true) h.root_dir h.dir,
    hnew (Q := PlacedBy SlashFree s.fs.io.disk) (h.root.placed _) h.placed⟩
  simp only [Session.createTask, Function.update_apply] at hf
  split_ifs at hf
  · exact absurd hops (stdTable_ops hf)
  · exact h.ok.fd t i f hf hops

theorem run (h : s.CwdOk) (ops : List CwdOp) : (s.cwdRun ops).CwdOk := by
  induction ops generalizing s with
  | nil => exact h
  | cons op ops ih =>
      apply ih
      cases op with
      | session op => exact h.step op
      | createTask current newTask => exact h.createTask current newTask

end CwdOk

end Session

/-- The working directory of a task is a directory in use, and the path that `vfs_getcwd` gives
for it, if it does, leads back to it. -/
structure CwdRoundTrips (s : Session) (task : ℕ) : Prop where
  lt : (s.cwd task).inodeIdx.toNat < INODE_COUNT
  used : (inodeAt s.fs.io.disk (s.cwd task).inodeIdx.toNat).isUsed = true
  dir : (inodeAt s.fs.io.disk (s.cwd task).inodeIdx.toNat).isDir = true
  getcwd : ∀ (bufSize : UInt32) (buf out : ℤ → UInt8), 2 ≤ bufSize.toNat →
    bufSize.toNat ≤ 2 ^ 31 - 1 → s.vfsGetcwd task buf bufSize = some out →
    ∃ path : CStr, CStr.Holds (fun k : ℕ => out k) path ∧ path.strlen < bufSize.toNat ∧
      path.byteAt 0 = 47 ∧ ∀ currentDir, ∃ m,
        vfsResolvePath s.fs.io s.vfsRoot currentDir path = some (some m) ∧
          m.inodeIdx = (s.cwd task).inodeIdx

/-- **The working directory round-trips**, for every task after every run. -/
theorem run_getcwd_resolves (d : Disk) (hd : needsFormat d = true) (ops : List CwdOp)
    (task : ℕ) : CwdRoundTrips ((Session.init d).cwdRun ops) task := by
  have h := (Session.CwdOk.init hd).run ops
  generalize (Session.init d).cwdRun ops = s at h
  have hdir := (h.ok.cwd task).dir (h.dir task)
  obtain ⟨names, hp, hs⟩ := h.placed task
  refine ⟨hdir.lt, hdir.used, hdir.dir, fun bufSize buf out h2 _ hout => ?_⟩
  obtain ⟨hholds, hlen⟩ := vfsGetPath_holds h.ok.fs.inv (h.dir task) hdir hp hout
  refine ⟨pathText names, hholds, hlen h2, ?_, fun currentDir => ?_⟩
  · rw [CStr.byteAt, List.getD_eq_getElem?_getD, ← List.head?_eq_getElem?, head_pathText]
    rfl
  · obtain ⟨m, hm, hnode⟩ := hp.resolve h.ok.fs.inv h.root currentDir (head_pathText names)
      (tokens_pathText hp hs)
    exact ⟨m, hm, UInt32.toNat.inj hnode.idx⟩

theorem run_getcwd_resolves_blank : needsFormat blankDisk = true ∧
    CwdRoundTrips ((Session.init blankDisk).cwdRun
      [.session (.call (.mkdir 0 ⟨[97], by decide⟩)), .session (.cd 0 ⟨[47, 97], by decide⟩),
        .createTask (some 0) 1]) 1 :=
  ⟨by decide, run_getcwd_resolves blankDisk (by decide) _ 1⟩

/-! ### New names -/

/-- `vfs_create` and `vfs_mkdir`. -/
inductive Creation where
  | create
  | mkdir
deriving DecidableEq

namespace Creation

def call (c : Creation) (io : Io) (sb : Superblock) (parent : VfsNode) (name : CStr) :
    ℤ × Io × Option VfsNode :=
  match c with
  | .create => vfsCreate io parent name
  | .mkdir => vfsMkdir io sb parent name

def flags : Creation → UInt32
  | .create => VFS_FILE
  | .mkdir => VFS_DIRECTORY

end Creation

/-- Inode `k` was free, and is in use now under the name `s` in directory `p`. -/
structure JustCreated (d d' : Disk) (p : ℕ) (s : CStr) (k : ℕ) : Prop where
  lt : k < INODE_COUNT
  free : (inodeAt d k).isUsed = false
  used : (inodeAt d' k).isUsed = true
  edge : Edge d' p s k

/-- The entry that `add_dir_entry` stores. -/
theorem edge_linked {d : Disk} (h : FsInv d) {p j k : ℕ} {s : CStr} (hp : IsDirectory d p)
    (hj : j < 16) (hempty : (slot d p j).isPresent = false) (hs : NameOk s) (hk : k < 64) :
    Edge (linked d p j (UInt32.ofNat k) s) p s k := by
  have hslot : slot (linked d p j (UInt32.ofNat k) s) p j =
      mkEntry (slot d p j).filename (UInt32.ofNat k) s := by
    rw [slot_linked h.blocks hp hj hp, if_pos ⟨rfl, rfl⟩]
  have hname : (mkEntry (slot d p j).filename (UInt32.ofNat k) s).HasName s :=
    hasName_mkEntry _ _ hs.1
  have h2 : 2 ≤ j := by
    by_contra hj2
    obtain rfl | rfl : j = 0 ∨ j = 1 := by omega
    · rw [(h.tree.dot p hp).1.isPresent_iff.2 (by decide)] at hempty
      cases hempty
    · rw [(h.tree.dotdot p hp).1.isPresent_iff.2 (by decide)] at hempty
      cases hempty
  refine ⟨j, ⟨(isDirectory_linked h.blocks hp p).2 hp, h2, hj, ?_, ?_⟩, ?_⟩
  · rw [hslot]
    exact hname.isPresent_iff.2 hs.2
  · rw [hslot]
    exact toNat_ofNat_lt hk
  · rw [hslot]
    exact hname

section creation

variable {io : Io} {sb : Superblock} {n : VfsNode} {name : CStr}

theorem vfsCreate_created (h : FsInv io.disk) (hd : IsDirectory io.disk n.inodeIdx.toNat)
    (hret : (vfsCreate io n name).1 = 0) :
    ∃ k, JustCreated io.disk (vfsCreate io n name).2.1.disk n.inodeIdx.toNat name k ∧
      (inodeAt (vfsCreate io n name).2.1.disk k).isDir = false := by
  unfold vfsCreate at hret ⊢
  split_ifs at hret ⊢ with hl
  · omega
  · obtain ⟨-, he⟩ | ⟨hname, -, k, hk, hfree, ⟨-, he⟩ | ⟨j, hj, hempty, he⟩⟩ :=
      simplefsCreate_cases h hd name
    · rw [he] at hret
      simp at hret
    · rw [he] at hret
      simp at hret
    · have hinv : FsInv (io.take k INODE_USED).disk :=
        (SafeRun.step (.takeInode _ _ hk hfree (by decide))).inv h
      have htake := sameTree_take h hk hfree INODE_USED (by decide)
      have hp := (htake.dirs _).2 hd
      have hino := inodeAt_linked (j := j) (k := UInt32.ofNat k) (s := name) hinv.blocks hp hk
      have hnew : inodeAt (io.take k INODE_USED).disk k = Inode.fresh INODE_USED := by
        rw [Io.take_disk, inodeAt_putInode_same]
      rw [hnew] at hino
      rw [he]
      simp only [lt_irrefl, if_false, linkWrite_disk]
      have hedge := edge_linked hinv hp hj (by rw [htake.slots _ hd]; exact hempty) hname hk
      refine ⟨k, ⟨hk, hfree, ?_, hedge⟩, ?_⟩
      · rw [hino]
        decide
      · rw [hino]
        decide

/-- The new directory has no entry but `.` and `..`, and no other inode has changed. -/
theorem vfsMkdir_created (h : FsInv io.disk) (hsb : sb.dataBlockStart = 17)
    (hd : IsDirectory io.disk n.inodeIdx.toNat) (hret : (vfsMkdir io sb n name).1 = 0) :
    ∃ k, JustCreated io.disk (vfsMkdir io sb n name).2.1.disk n.inodeIdx.toNat name k ∧
      (inodeAt (vfsMkdir io sb n name).2.1.disk k).isDir = true ∧
      (∀ j, 2 ≤ j → (slot (vfsMkdir io sb n name).2.1.disk k j).isPresent = false) ∧
      ∀ m < 64, m ≠ k → inodeAt (vfsMkdir io sb n name).2.1.disk m = inodeAt io.disk m := by
  unfold vfsMkdir at hret ⊢
  split_ifs at hret ⊢ with hl
  · omega
  · obtain ⟨-, he⟩ | ⟨hname, -, k, hk, hfree, ⟨-, he⟩ | ⟨j, hj, hempty, he⟩⟩ :=
      simplefsMkdir_cases h hsb hd name
    · rw [he] at hret
      simp at hret
    · rw [he] at hret
      simp at hret
    · have hspec := makeDir_spec h hsb hk hfree hd
      have hinv := hspec.run.inv h
      have hp := (hspec.dirs _).2 (Or.inl hd)
      have hino := fun m (hm : m < 64) =>
        inodeAt_linked (j := j) (k := UInt32.ofNat k) (s := name) hinv.blocks hp hm
      have hself := hino k hk
      rw [hspec.inode k hk, if_pos rfl] at hself
      rw [he]
      simp only [lt_irrefl, if_false, linkWrite_disk]
      have hedge := edge_linked hinv hp hj (by rw [hspec.slots _ hd]; exact hempty) hname hk
      refine ⟨k, ⟨hk, hfree, ?_, hedge⟩, ?_, fun j' hj' => ?_, fun m hm hne => ?_⟩
      · rw [hself, Inode.isUsed_setBlock]
        decide
      · rw [hself, Inode.isDir_setBlock]
        decide
      · have hpk : k ≠ n.inodeIdx.toNat := by
          rintro rfl
          rw [hd.used] at hfree
          cases hfree
        rw [slot_linked hinv.blocks hp hj ((hspec.dirs k).2 (Or.inr rfl)), if_neg fun e => hpk e.1,
          hspec.self]
        exact isPresent_newTable _ _ hj'
      · rw [hino m hm, hspec.inode m hm, if_neg hne]

/-- What a creation that answers `0` has done. -/
theorem Creation.created (c : Creation) (h : FsInv io.disk) (hsb : sb.dataBlockStart = 17)
    (hd : IsDirectory io.disk n.inodeIdx.toNat) (hret : (c.call io sb n name).1 = 0) :
    ∃ k, JustCreated io.disk (c.call io sb n name).2.1.disk n.inodeIdx.toNat name k ∧
      c.flags = if (inodeAt (c.call io sb n name).2.1.disk k).isDir then VFS_DIRECTORY
        else VFS_FILE := by
  cases c with
  | create =>
      obtain ⟨k, hk, hdir⟩ := vfsCreate_created h hd hret
      exact ⟨k, hk, (if_neg (by simpa [Creation.call] using hdir)).symm⟩
  | mkdir =>
      obtain ⟨k, hk, hdir, -⟩ := vfsMkdir_created h hsb hd hret
      exact ⟨k, hk, (if_pos hdir).symm⟩

theorem vfsCreate_out {m : VfsNode} (hm : (vfsCreate io n name).2.2 = some m) :
    vfsLookup (vfsCreate io n name).2.1 n name = some m := by
  unfold vfsCreate at hm ⊢
  split_ifs at hm ⊢
  generalize simplefsCreate io n.inodeIdx name = r at hm ⊢
  by_cases hneg : r.1 < 0
  · simp [hneg] at hm
  · simpa [hneg] using hm

theorem vfsMkdir_out {m : VfsNode} (hm : (vfsMkdir io sb n name).2.2 = some m) :
    vfsLookup (vfsMkdir io sb n name).2.1 n name = some m := by
  unfold vfsMkdir at hm ⊢
  split_ifs at hm ⊢
  generalize simplefsMkdir io sb n.inodeIdx name = r at hm ⊢
  by_cases hneg : r.1 < 0
  · simp [hneg] at hm
  · simpa [hneg] using hm

theorem vfsWrite_inodeIdx (buf : ℕ → UInt8) (size : UInt32) :
    (vfsWrite io sb n buf size).2.2.inodeIdx = n.inodeIdx := by
  unfold vfsWrite
  split_ifs
  · rfl
  · dsimp only
    split_ifs
    · rfl
    · rfl

theorem Creation.safeRun (c : Creation) (h : FsInv io.disk) (hsb : sb.dataBlockStart = 17)
    (hn : NodeOk io.disk n) : SafeRun io (c.call io sb n name).2.1 := by
  cases c with
  | create => exact (vfsCreate_spec h hn name).1
  | mkdir => exact (vfsMkdir_spec h hsb hn name).1

end creation

/-- The path `P + '/' + name`. -/
def CStr.child (P name : CStr) : CStr :=
  ⟨P.bytes ++ 47 :: name.bytes, by
    intro h
    rcases List.mem_append.1 h with h | h
    · exact P.noNul h
    · rcases List.mem_cons.1 h with h | h
      · exact absurd h (by decide)
      · exact name.noNul h⟩

/-- **A node is found behind the path of its directory exactly when no `/` is in the way.** -/
theorem resolve_child_iff {io : Io} (h : FsInv io.disk) {names : List CStr} {p k : ℕ} {name : CStr}
    (hp : PathTo io.disk names p) (he : Edge io.disk p name k) {vfsRoot : VfsNode}
    (hr : IsNode io.disk vfsRoot 0) (hrn : NodeOk io.disk vfsRoot) (currentDir : VfsNode) :
    (∃ m, vfsResolvePath io vfsRoot currentDir (CStr.child (pathText names) name) =
        some (some m) ∧ IsNode io.disk m k) ↔ (∀ s ∈ names, SlashFree s) ∧ SlashFree name := by
  have hk : PathTo io.disk (names ++ [name]) k := hp.snoc he
  have habs : (CStr.child (pathText names) name).bytes.head? = some 47 := by
    rw [CStr.child, List.head?_append, head_pathText]
    rfl
  constructor
  · rintro ⟨m, hm, hnode⟩
    have hstart : startOf vfsRoot currentDir (CStr.child (pathText names) name) = vfsRoot :=
      if_pos habs
    obtain ⟨names', hp', hs⟩ := PlacedBy.resolve h (by rw [hstart]; exact hrn)
      (by rw [hstart]; exact hr.placed _) hm
    rw [hnode.idx] at hp'
    rw [hp'.unique (forest_edge h.tree) hk] at hs
    exact ⟨fun s hsn => hs s (List.mem_append_left _ hsn), hs name (by simp)⟩
  · rintro ⟨hs, hname⟩
    have hne : name.bytes ≠ [] := fun e => he.strlen.2 (by rw [CStr.strlen, e]; rfl)
    refine hk.resolve h hr currentDir habs ?_
    rw [CStr.child, tokens_append_cons, tokens_pathText hp hs, tokens_eq_singleton hname hne,
      List.map_append]
    rfl

/-! ### Nodes of a run -/

namespace VfsState

/-- Every node held is reached from the root. -/
def Rooted (s : VfsState) : Prop := ∀ n ∈ s.nodes, PlacedBy (fun _ => True) s.io.disk n

variable {s : VfsState}

theorem Rooted.note (h : s.Rooted) {n : Option VfsNode}
    (hn : ∀ m ∈ n, PlacedBy (fun _ => True) s.io.disk m) : (s.note n).Rooted := by
  intro m hm
  rcases List.mem_append.1 hm with hm | hm
  · exact h m hm
  · exact hn m (Option.mem_toList.1 hm)

theorem Rooted.of_grows (h : s.Rooted) {io : Io} (hg : Grows s.io.disk io.disk) :
    Rooted { s with io := io } :=
  fun n hn => (h n hn).grows hg

theorem Ok.call_rooted (hok : s.Ok) (h : s.Rooted) (c : VfsCall) : (s.call c).Rooted := by
  have hg := (hok.call c).2.grows hok.inv
  have hinv := (hok.call c).1.inv
  cases c with
  | lookup dir name =>
      simp only [VfsState.call]
      cases hn : s.nodes[dir]? with
      | none => exact h
      | some n =>
          have hplaced := h n (List.mem_of_getElem? hn)
          exact h.note fun m hm => hplaced.vfsLookup hok.inv (hok.node hn) trivial hm
  | readdir dir index =>
      simp only [VfsState.call]
      cases hn : s.nodes[dir]? with
      | none => exact h
      | some n =>
          have hplaced := h n (List.mem_of_getElem? hn)
          exact h.note fun m hm => hplaced.vfsReaddir hok.inv (hok.node hn) hm
  | resolvePath cwd path =>
      simp only [VfsState.call]
      cases hn : s.nodes[cwd]? with
      | none => exact h
      | some n =>
          cases hr : s.nodes[0]? with
          | none => exact h
          | some root =>
              refine h.note fun m hm => ?_
              cases hp : vfsResolvePath s.io root n path with
              | none => simp [hp] at hm
              | some r =>
                  rw [hp] at hm
                  have hw := vfsResolvePath_eq_walk hp
                  have hwalk : walk s.io (startOf root n path) (tokens 47 path.bytes) = some m :=
                    hw.symm.trans hm
                  unfold startOf at hwalk
                  split_ifs at hwalk
                  · exact (h root (List.mem_of_getElem? hr)).walk hok.inv (fun _ _ => trivial)
                      (hok.node hr) hwalk
                  · exact (h n (List.mem_of_getElem? hn)).walk hok.inv (fun _ _ => trivial)
                      (hok.node hn) hwalk
  | create parent name =>
      simp only [VfsState.call] at hg hinv ⊢
      cases hn : s.nodes[parent]? with
      | none => exact h
      | some n =>
          rw [hn] at hg hinv
          refine Rooted.note (h.of_grows hg) fun m hm => ?_
          have hplaced := (h n (List.mem_of_getElem? hn)).grows hg
          exact hplaced.vfsLookup hinv ((hok.node hn).grows hg) trivial (vfsCreate_out hm)
  | mkdir parent name =>
      simp only [VfsState.call] at hg hinv ⊢
      cases hn : s.nodes[parent]? with
      | none => exact h
      | some n =>
          rw [hn] at hg hinv
          refine Rooted.note (h.of_grows hg) fun m hm => ?_
          have hplaced := (h n (List.mem_of_getElem? hn)).grows hg
          exact hplaced.vfsLookup hinv ((hok.node hn).grows hg) trivial (vfsMkdir_out hm)
  | write file buf size =>
      simp only [VfsState.call] at hg ⊢
      cases hn : s.nodes[file]? with
      | none => exact h
      | some n =>
          rw [hn] at hg
          intro m hm
          rcases List.mem_or_eq_of_mem_set hm with hm | rfl
          · exact (h m hm).grows hg
          · have hplaced := (h n (List.mem_of_getElem? hn)).grows hg
            unfold PlacedBy at hplaced ⊢
            rw [vfsWrite_inodeIdx]
            exact hplaced

theorem Ok.event_rooted (hok : s.Ok) (h : s.Rooted) (e : VfsEvent) : (s.event e).Rooted := by
  cases e with
  | done c => exact hok.call_rooted h c
  | cut c k =>
      have hrun := SafeRun.cutIo (hok.call c).2 k
      simp only [VfsState.event]
      rw [simplefsInit_of_inv (hrun.inv hok.inv)]
      exact fun n hn => (h n hn).grows (hrun.grows hok.inv)

theorem Ok.run_rooted (hok : s.Ok) (h : s.Rooted) (es : List VfsEvent) : (s.run es).Rooted := by
  induction es generalizing s with
  | nil => exact h
  | cons e es ih => exact ih (hok.event e) (hok.event_rooted h e)

theorem rooted_init {d : Disk} (hd : needsFormat d = true) : (VfsState.init d).Rooted := by
  intro n hn
  obtain rfl := List.mem_singleton.1 hn
  exact (isNode_root hd).placed _

/-- Whatever happens, inode 0 stays the root directory. -/
theorem Ok.isNode_root {d : Disk} (hd : needsFormat d = true) (es : List VfsEvent) :
    IsNode ((VfsState.init d).run es).io.disk (vfsInit ⟨d, []⟩).2.2 0 := by
  have hroot := ((Ok.init hd).run es).inv.tree.root
  refine ⟨rfl, ?_⟩
  rw [hroot.dir]
  rfl

end VfsState

/-- The path of the new name leads to the inode just created, as what it was created. -/
def FoundByPath (c : Creation) (s : VfsState) (vfsRoot currentDir n : VfsNode) (P name : CStr) :
    Prop :=
  ∃ k m, JustCreated s.io.disk (c.call s.io s.sb n name).2.1.disk n.inodeIdx.toNat name k ∧
    vfsResolvePath (c.call s.io s.sb n name).2.1 vfsRoot currentDir (CStr.child P name) =
      some (some m) ∧ m.inodeIdx.toNat = k ∧ m.flags = c.flags

/-- A creation behind a path that `vfs_get_path` gave. -/
theorem foundByPath_iff {s : VfsState} (hok : s.Ok) {vfsRoot n : VfsNode}
    (hr : IsNode s.io.disk vfsRoot 0) (hn : NodeOk s.io.disk n)
    (hp : PlacedBy (fun _ => True) s.io.disk n) (hdir : n.isDirectory = true) {bufSize : UInt32}
    {buf out : ℤ → UInt8} (hout : vfsGetPath s.io n bufSize buf = some out) {P : CStr}
    (hP : CStr.Holds (fun k : ℕ => out k) P) (c : Creation) {name : CStr}
    (hret : (c.call s.io s.sb n name).1 = 0) (currentDir : VfsNode) :
    FoundByPath c s vfsRoot currentDir n P name ↔ PlacedBy SlashFree s.io.disk n ∧ SlashFree name := by
  have hsb : s.sb.dataBlockStart = 17 := by
    rw [hok.sb]
    rfl
  have hroot := hok.inv.tree.root
  have hd := hn.dir hdir
  obtain ⟨names, hp, -⟩ := hp
  obtain rfl := hP.unique (vfsGetPath_holds hok.inv hdir hd hp hout).1
  have hrun : SafeRun s.io (c.call s.io s.sb n name).2.1 := c.safeRun hok.inv hsb hn
  have hinv := hrun.inv hok.inv
  have hg := hrun.grows hok.inv
  obtain ⟨k, hk, hflags⟩ := c.created hok.inv hsb hd hret
  have hr' := hr.grows hg hroot.lt hroot.used
  have hrn : NodeOk (c.call s.io s.sb n name).2.1.disk vfsRoot := by
    refine ⟨fun _ => ?_, fun hf => ?_⟩
    · rw [hr.idx]
      exact hinv.tree.root
    · rw [hr'.isDirectory hinv.tree.root.dir] at hf
      cases hf
  have hiff := resolve_child_iff hinv (hp.grows hg) hk.edge hr' hrn currentDir
  have hplaced : PlacedBy SlashFree s.io.disk n ↔ ∀ s ∈ names, SlashFree s := by
    refine ⟨fun ⟨names', hp', hs⟩ => ?_, fun hs => ⟨names, hp, hs⟩⟩
    rw [hp'.unique (forest_edge hok.inv.tree) hp] at hs
    exact hs
  rw [hplaced, ← hiff]
  constructor
  · rintro ⟨k', m, hk', hm, hidx, hmflags⟩
    obtain rfl := hk'.edge.unique hinv.tree hk.edge
    exact ⟨m, hm, hidx, hmflags.trans hflags⟩
  · rintro ⟨m, hm, hnode⟩
    exact ⟨k, m, hk, hm, hnode.idx, hnode.flags.trans hflags.symm⟩

theorem Creation.call_of_canCreate (c : Creation) {io : Io} {sb : Superblock} (h : FsInv io.disk)
    (hsb : sb.dataBlockStart = 17) {n : VfsNode} (hd : IsDirectory io.disk n.inodeIdx.toNat)
    {name : CStr} (hne : name ≠ dot) (hcan : CanCreate io n.inodeIdx name) :
    (c.call io sb n name).1 = 0 := by
  have hlook := vfsLookup_of_absent h.tree hd hcan.2.2.1 hne
  cases c with
  | create =>
      have hcreate := (simplefsCreate_eq_zero_iff h (Or.inl hd) name).2 hcan
      unfold call vfsCreate
      simp [hlook, hcreate]
  | mkdir =>
      have hmkdir := (simplefsMkdir_eq_zero_iff h hsb (Or.inl hd) name).2 hcan
      unfold call vfsMkdir
      simp [hlook, hmkdir]

/-- A directory with no entry but `.` and `..` takes every other name. -/
theorem canCreate_of_empty {io : Io} (h : TreeInv io.disk) {n : VfsNode}
    (hd : IsDirectory io.disk n.inodeIdx.toNat)
    (hempty : ∀ j < 16, 2 ≤ j → (slot io.disk n.inodeIdx.toNat j).isPresent = false)
    (hfree : ∃ k < INODE_COUNT, (inodeAt io.disk k).isUsed = false) {name : CStr}
    (hname : NameOk name) (h1 : name ≠ dot) (h2 : name ≠ dotdot) :
    CanCreate io n.inodeIdx name := by
  unfold CanCreate
  rw [readInode_eq]
  refine ⟨(nameOk_iff _).1 hname, hd.dir, fun j hj hp hs => ?_, hfree, 2, by decide,
    hempty 2 (by decide) le_rfl⟩
  rcases Nat.lt_or_ge j 2 with hj2 | hj2
  · obtain rfl | rfl : j = 0 ∨ j = 1 := by omega
    · exact h1 (hs.unique (h.dot _ hd).1)
    · exact h2 (hs.unique (h.dotdot _ hd).1)
  · exact absurd (hp.symm.trans (hempty j hj hj2)) (by decide)

/-- The root of a fresh disk takes every name but `.` and `..`. -/
theorem canCreate_root {d : Disk} (hd : needsFormat d = true) {root : VfsNode}
    (hroot : root.inodeIdx.toNat = 0) {name : CStr} (hname : NameOk name) (h1 : name ≠ dot)
    (h2 : name ≠ dotdot) : CanCreate (VfsState.init d).io root.inodeIdx name := by
  have h := filled_init hd
  have htree := h.ok.inv.tree
  refine canCreate_of_empty htree (by rw [hroot]; exact htree.root) (fun j hj hj2 => ?_)
    ⟨1, by decide, (h.used 1 (by decide)).trans (by decide)⟩ hname h1 h2
  rw [hroot, h.present j hj]
  exact decide_eq_false (by omega)

/-- A creation in the root directory of a blank disk. -/
theorem create_in_root {name : CStr} (hname : NameOk name) (h1 : name ≠ dot) (h2 : name ≠ dotdot) :
    ∃ n ∈ ((VfsState.init blankDisk).run []).nodes, n.isDirectory = true ∧
      ∃ out, vfsGetPath ((VfsState.init blankDisk).run []).io n 16 (fun _ => 0) = some out ∧
        CStr.Holds (fun k : ℕ => out k) slash ∧
        (Creation.create.call ((VfsState.init blankDisk).run []).io
          ((VfsState.init blankDisk).run []).sb n name).1 = 0 := by
  have hd : needsFormat blankDisk = true := by decide
  have hok := VfsState.Ok.init hd
  have hroot := isNode_root hd
  have hdir := hroot.isDirectory hok.inv.tree.root.dir
  have hmem : (vfsInit ⟨blankDisk, []⟩).2.2 ∈ (VfsState.init blankDisk).nodes :=
    List.mem_singleton.2 rfl
  refine ⟨(vfsInit ⟨blankDisk, []⟩).2.2, hmem, hdir, ?_⟩
  rw [show (VfsState.init blankDisk).run [] = VfsState.init blankDisk from rfl]
  generalize (vfsInit ⟨blankDisk, []⟩).2.2 = root at hroot hdir
  have hd0 : IsDirectory (VfsState.init blankDisk).io.disk root.inodeIdx.toNat := by
    rw [hroot.idx]
    exact hok.inv.tree.root
  have hnil : PathTo (VfsState.init blankDisk).io.disk [] root.inodeIdx.toNat := by
    rw [hroot.idx]
    exact .nil
  have h0 : root.inodeIdx = 0 := UInt32.toNat.inj hroot.idx
  have hout : vfsGetPath (VfsState.init blankDisk).io root 16 (fun _ => 0) =
      some (copyIn (fun _ => 0) 0 slash.byteAt 2) := by
    unfold vfsGetPath
    rw [if_neg (by decide), if_pos h0]
  exact ⟨_, hout, (vfsGetPath_holds hok.inv hdir hd0 hnil hout).1,
    Creation.create.call_of_canCreate hok.inv rfl hd0 h1 (canCreate_root hd hroot.idx hname h1 h2)⟩

/-- The node that a creation hands out. -/
theorem vfsMkdir_node {io : Io} {sb : Superblock} {n : VfsNode} {name : CStr} {k : ℕ}
    (h : FsInv (vfsMkdir io sb n name).2.1.disk) (hdir : n.isDirectory = true)
    (he : Edge (vfsMkdir io sb n name).2.1.disk n.inodeIdx.toNat name k)
    (hret : (vfsMkdir io sb n name).1 = 0) : ∃ m, (vfsMkdir io sb n name).2.2 = some m ∧
      IsNode (vfsMkdir io sb n name).2.1.disk m k := by
  obtain ⟨m, hlook, hm⟩ := he.lookup h hdir
  refine ⟨m, ?_, hm⟩
  rw [← hlook]
  unfold vfsMkdir at hret ⊢
  split_ifs at hret ⊢
  · cases hret
  · dsimp only at hret ⊢
    split_ifs at hret ⊢
    · cases hret
    · rfl

/-- The directory `a` is made in the root. -/
def firstMkdir : List VfsEvent := [.done (.mkdir 0 (fileName 0))]

theorem run_firstMkdir {s : VfsState} {root : VfsNode} (h : s.nodes[0]? = some root) :
    s.run firstMkdir = { s with io := (vfsMkdir s.io s.sb root (fileName 0)).2.1 }.note
      (vfsMkdir s.io s.sb root (fileName 0)).2.2 := by
  simp only [VfsState.run, firstMkdir, List.foldl_cons, List.foldl_nil, VfsState.event,
    VfsState.call, h]

theorem root_mem_firstMkdir :
    (vfsInit ⟨blankDisk, []⟩).2.2 ∈ ((VfsState.init blankDisk).run firstMkdir).nodes := by
  have hget : (VfsState.init blankDisk).nodes[0]? = some (vfsInit ⟨blankDisk, []⟩).2.2 := rfl
  rw [run_firstMkdir hget]
  exact List.mem_append_left _ (List.mem_of_getElem? hget)

/-- On a blank disk it is made, and it takes every name but `.` and `..`. -/
theorem firstMkdir_node : ∃ n ∈ ((VfsState.init blankDisk).run firstMkdir).nodes,
    n.isDirectory = true ∧
      Edge ((VfsState.init blankDisk).run firstMkdir).io.disk 0 (fileName 0) n.inodeIdx.toNat ∧
      ∀ name, NameOk name → name ≠ dot → name ≠ dotdot →
        CanCreate ((VfsState.init blankDisk).run firstMkdir).io n.inodeIdx name := by
  have hd : needsFormat blankDisk = true := by decide
  have hfill := filled_init hd
  have hok := VfsState.Ok.init hd
  have hinv := (hok.run firstMkdir).inv
  have hroot := isNode_root hd
  have hget : (VfsState.init blankDisk).nodes[0]? = some (vfsInit ⟨blankDisk, []⟩).2.2 := rfl
  have hcan := canCreate_root hd hroot.idx (Filled.nameOk 0) (fileName_ne_dot 0).1
    (fileName_ne_dot 0).2
  have hsb : (VfsState.init blankDisk).sb.dataBlockStart = 17 := by
    rw [hok.sb]
    rfl
  generalize (vfsInit ⟨blankDisk, []⟩).2.2 = root at hroot hget hcan
  generalize VfsState.init blankDisk = s at *
  rw [run_firstMkdir hget] at hinv ⊢
  have hdir := hroot.isDirectory hok.inv.tree.root.dir
  have hd0 : IsDirectory s.io.disk root.inodeIdx.toNat := by
    rw [hroot.idx]
    exact hok.inv.tree.root
  have hret := Creation.mkdir.call_of_canCreate hok.inv hsb hd0 (fileName_ne_dot 0).1 hcan
  obtain ⟨k, hk, hkdir, hempty, hothers⟩ := vfsMkdir_created hok.inv hsb hd0 hret
  obtain ⟨m, hm, hnode⟩ := vfsMkdir_node hinv hdir hk.edge hret
  have hedge := hk.edge
  rw [hroot.idx] at hedge
  have hmdir : IsDirectory (vfsMkdir s.io s.sb root (fileName 0)).2.1.disk k :=
    PathTo.isDirectory hinv.tree (Trail.snoc .nil hedge) hkdir
  refine ⟨m, List.mem_append_right _ (Option.mem_toList.2 hm), hnode.isDirectory hkdir,
    by rw [hnode.idx]; exact hedge, fun name hname h1 h2 => ?_⟩
  have hmd : IsDirectory (vfsMkdir s.io s.sb root (fileName 0)).2.1.disk m.inodeIdx.toNat := by
    rw [hnode.idx]
    exact hmdir
  refine canCreate_of_empty hinv.tree hmd (fun j _ hj2 => ?_) ?_ hname h1 h2
  · rw [hnode.idx]
    exact hempty j hj2
  · -- only inodes 0 and `k` are in use
    obtain ⟨x, hx, h0, hxk⟩ : ∃ x < 64, ¬ x ≤ 0 ∧ x ≠ k := by
      by_cases hk1 : k = 1
      · exact ⟨2, by omega, by omega, by omega⟩
      · exact ⟨1, by omega, by omega, by omega⟩
    have hfree := (hfill.used x hx).trans (decide_eq_false h0)
    exact ⟨x, hx, (congrArg Inode.isUsed (hothers x hx hxk)).trans hfree⟩

/-- 64 bytes are enough for the path of a directory in the root. -/
theorem vfsGetPath_of_edge {io : Io} (h : FsInv io.disk) {n : VfsNode} (hdir : n.isDirectory = true)
    {s : CStr} (he : Edge io.disk 0 s n.inodeIdx.toNat)
    (hd : IsDirectory io.disk n.inodeIdx.toNat) (buf : ℤ → UInt8) :
    ∃ out, vfsGetPath io n 64 buf = some out ∧
      CStr.Holds (fun k : ℕ => out k) (pathText [s]) := by
  have hpath : PathTo io.disk [s] n.inodeIdx.toNat := Trail.snoc .nil he
  have hlen := he.strlen.1
  have hidx : cInt ((64 : UInt32) - 1) = 63 := by decide
  obtain ⟨h0, -, parent, hlook, -, hpi, hname⟩ := findIn_up h .nil he rfl hdir hd.dir
  have hroot : ∀ b i, getPathLoop io parent b i = some (b, i) := fun b i => by
    rw [getPathLoop, if_pos (UInt32.toNat.inj hpi)]
  obtain ⟨out, hout⟩ : ∃ out, vfsGetPath io n 64 buf = some out := by
    unfold vfsGetPath
    rw [if_neg (by decide), if_neg h0, hidx]
    dsimp only
    rw [getPathLoop, if_neg h0, hlook]
    dsimp only
    rw [hname, if_neg (by omega), dif_neg (by omega), hroot]
    exact ⟨_, rfl⟩
  exact ⟨out, hout, (vfsGetPath_holds h hdir hd hpath hout).1⟩

/-- **Everything created is found by its path exactly when no `/` is in its names**: neither in
its own nor in that of a directory on the way to it. -/
theorem run_created_resolves_iff (d : Disk) (hd : needsFormat d = true) (es : List VfsEvent)
    (n : VfsNode) (hn : n ∈ ((VfsState.init d).run es).nodes) (hdir : n.isDirectory = true)
    (bufSize : UInt32) (buf out : ℤ → UInt8)
    (hout : vfsGetPath ((VfsState.init d).run es).io n bufSize buf = some out) (P : CStr)
    (hP : CStr.Holds (fun k : ℕ => out k) P) (c : Creation) (name : CStr)
    (hret : (c.call ((VfsState.init d).run es).io ((VfsState.init d).run es).sb n name).1 = 0)
    (currentDir : VfsNode) :
    FoundByPath c ((VfsState.init d).run es) (vfsInit ⟨d, []⟩).2.2 currentDir n P name ↔
      PlacedBy SlashFree ((VfsState.init d).run es).io.disk n ∧ SlashFree name := by
  have hok := (VfsState.Ok.init hd).run es
  have hrooted := (VfsState.Ok.init hd).run_rooted (VfsState.rooted_init hd) es
  exact foundByPath_iff hok (VfsState.Ok.isNode_root hd es) (hok.nodes n hn) (hrooted n hn) hdir
    hout hP c hret currentDir

/-- The file `b` in the directory `a` of a blank disk. -/
theorem run_created_resolves_iff_below : needsFormat blankDisk = true ∧
    ∃ n ∈ ((VfsState.init blankDisk).run firstMkdir).nodes, n.isDirectory = true ∧
      ∃ out, vfsGetPath ((VfsState.init blankDisk).run firstMkdir).io n 64 (fun _ => 0) =
          some out ∧
        CStr.Holds (fun k : ℕ => out k) (pathText [fileName 0]) ∧
        (Creation.create.call ((VfsState.init blankDisk).run firstMkdir).io
          ((VfsState.init blankDisk).run firstMkdir).sb n (fileName 1)).1 = 0 ∧
        (FoundByPath .create ((VfsState.init blankDisk).run firstMkdir)
            (vfsInit ⟨blankDisk, []⟩).2.2 n n (pathText [fileName 0]) (fileName 1) ↔
          PlacedBy SlashFree ((VfsState.init blankDisk).run firstMkdir).io.disk n ∧
            SlashFree (fileName 1)) := by
  have hd : needsFormat blankDisk = true := by decide
  have hok := (VfsState.Ok.init hd).run firstMkdir
  have hsb : ((VfsState.init blankDisk).run firstMkdir).sb.dataBlockStart = 17 := by
    rw [hok.sb]
    rfl
  obtain ⟨n, hn, hdir, hedge, hcan⟩ := firstMkdir_node
  have hnd := (hok.nodes n hn).dir hdir
  obtain ⟨out, hout, hP⟩ := vfsGetPath_of_edge hok.inv hdir hedge hnd fun _ => 0
  have hret := Creation.create.call_of_canCreate hok.inv hsb hnd (fileName_ne_dot 1).1
    (hcan _ (Filled.nameOk 1) (fileName_ne_dot 1).1 (fileName_ne_dot 1).2)
  exact ⟨hd, n, hn, hdir, out, hout, hP, hret, run_created_resolves_iff blankDisk hd firstMkdir n hn
    hdir 64 _ out hout (pathText [fileName 0]) hP .create _ hret n⟩

/-- `a/b` -/
def slashName : CStr := ⟨[97, 47, 98], by decide⟩

/-- A file `a/b` is created in the root of a blank disk; no path finds it. -/
theorem slash_name_not_found : needsFormat blankDisk = true ∧
    ∃ n ∈ ((VfsState.init blankDisk).run []).nodes, n.isDirectory = true ∧
      ∃ out, vfsGetPath ((VfsState.init blankDisk).run []).io n 16 (fun _ => 0) = some out ∧
        CStr.Holds (fun k : ℕ => out k) slash ∧
        (Creation.create.call ((VfsState.init blankDisk).run []).io
          ((VfsState.init blankDisk).run []).sb n slashName).1 = 0 ∧
        ∀ currentDir, ¬ FoundByPath .create ((VfsState.init blankDisk).run [])
          (vfsInit ⟨blankDisk, []⟩).2.2 currentDir n slash slashName := by
  have hd : needsFormat blankDisk = true := by decide
  have hok := (VfsState.Ok.init hd).run []
  have hrooted := (VfsState.Ok.init hd).run_rooted (VfsState.rooted_init hd) []
  obtain ⟨n, hn, hdir, out, hout, hP, hret⟩ := @create_in_root slashName ⟨by decide, by decide⟩
    (by decide) (by decide)
  refine ⟨hd, n, hn, hdir, out, hout, hP, hret, fun currentDir hfound => ?_⟩
  have hiff := foundByPath_iff hok (VfsState.Ok.isNode_root hd []) (hok.nodes n hn) (hrooted n hn)
    hdir hout hP .create hret currentDir
  exact (hiff.1 hfound).2 (by decide)

end NosmeriOs.Vfs
