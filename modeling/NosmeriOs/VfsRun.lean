import NosmeriOs.SimpleFsOps
import NosmeriOs.Vfs

/-! # Runs of the virtual file system, with crashes

A run holds the nodes it has obtained so far and calls the interface with them.  A call may
run to its end, or be cut off after any number of its sector writes; after a cut
`simplefs_init` runs again.  Nodes obtained before a cut may be used after it.

* `VfsState.Ok`: the disk invariant, plus `NodeOk` for every node held.  Both survive every
  chain of writes (`SafeRun`), hence every event (`Ok.event`) and every run (`Ok.run`).
* `run_block_ownership` and `run_directory_tree` read off what the invariant says about the
  inodes, the write log and the directory tables of any state a run reaches. -/

namespace NosmeriOs.Vfs

open Bytes SimpleFs

structure VfsState where
  io : Io
  sb : Superblock
  nodes : List VfsNode

/-- A call; nodes are referred to by their position among those obtained. -/
inductive VfsCall where
  | lookup (dir : ℕ) (name : CStr)
  | readdir (dir : ℕ) (index : ℤ)
  | resolvePath (currentDir : ℕ) (path : CStr)
  | create (parent : ℕ) (name : CStr)
  | mkdir (parent : ℕ) (name : CStr)
  | write (file : ℕ) (buf : ℕ → UInt8) (size : UInt32)

inductive VfsEvent where
  /-- The call runs to its end. -/
  | done (call : VfsCall)
  /-- The call is cut off after `writes` sector writes and the disk is mounted again. -/
  | cut (call : VfsCall) (writes : ℕ)

namespace VfsState

/-- The state after `vfs_init`. -/
def init (d : Disk) : VfsState :=
  let (io, sb, vfsRoot) := vfsInit ⟨d, []⟩
  ⟨io, sb, [vfsRoot]⟩

/-- Note a node that a call returned. -/
def note (s : VfsState) (n : Option VfsNode) : VfsState :=
  { s with nodes := s.nodes ++ n.toList }

/-- A completed call.  A position that holds no node is no call at all, and one whose path overruns
the token plays no part in a run: the state stays. -/
def call (s : VfsState) : VfsCall → VfsState
  | .lookup dir name => match s.nodes[dir]? with
    | some n => s.note (vfsLookup s.io n name)
    | none => s
  | .readdir dir index => match s.nodes[dir]? with
    | some n => s.note (vfsReaddir s.io n index)
    | none => s
  | .resolvePath currentDir path => match s.nodes[currentDir]?, s.nodes[0]? with
    | some n, some vfsRoot => s.note ((vfsResolvePath s.io vfsRoot n path).getD none)
    | _, _ => s
  | .create parent name => match s.nodes[parent]? with
    | some n =>
        let (_, io, out) := vfsCreate s.io n name
        { s with io := io }.note out
    | none => s
  | .mkdir parent name => match s.nodes[parent]? with
    | some n =>
        let (_, io, out) := vfsMkdir s.io s.sb n name
        { s with io := io }.note out
    | none => s
  | .write file buf size => match s.nodes[file]? with
    | some n =>
        let (_, io, n) := vfsWrite s.io s.sb n buf size
        { s with io := io, nodes := s.nodes.set file n }
    | none => s

/-- The device after the first `k` writes by which `io'` continues `io`. -/
def cutIo (io io' : Io) (k : ℕ) : Io := io.replay ((io'.log.drop io.log.length).take k)

def event (s : VfsState) : VfsEvent → VfsState
  | .done c => s.call c
  | .cut c k =>
      let (io, sb) := simplefsInit (cutIo s.io (s.call c).io k)
      { s with io := io, sb := sb }

def run (s : VfsState) (es : List VfsEvent) : VfsState := es.foldl event s

end VfsState

/-! ### Nodes -/

/-- What the disk holds for a node that was handed out: a directory node is a directory of the
tree, and a file node is still found under its name in its directory. -/
structure NodeOk (d : Disk) (n : VfsNode) : Prop where
  dir : n.isDirectory = true → IsDirectory d n.inodeIdx.toNat
  file : n.isDirectory = false → IsFile d n.inodeIdx.toNat ∧ IsDirectory d n.parentIdx.toNat ∧
    ∃ j < 16, (slot d n.parentIdx.toNat j).isPresent = true ∧
      (slot d n.parentIdx.toNat j).HasName n.name ∧
      (slot d n.parentIdx.toNat j).inodeIdx = n.inodeIdx

theorem NodeOk.grows {d d' : Disk} (h : Grows d d') {n : VfsNode} (hn : NodeOk d n) :
    NodeOk d' n := by
  refine ⟨fun hd => h.dir _ (hn.dir hd), fun hf => ?_⟩
  obtain ⟨h1, h2, j, hj, hp, hname, hx⟩ := hn.file hf
  have e := h.entry _ h2 j hj hp
  exact ⟨h1.grows h, h.dir _ h2, j, hj, by rw [e]; exact hp, by rw [e]; exact hname,
    by rw [e]; exact hx⟩

theorem isDirectory_nodeOf (name : CStr) (k p : UInt32) (inode : Inode) :
    (nodeOf name k p inode).isDirectory = inode.isDir := by
  unfold nodeOf VfsNode.isDirectory
  cases inode.isDir
  · show (VFS_FILE &&& VFS_DIRECTORY != 0) = false
    decide
  · show (VFS_DIRECTORY &&& VFS_DIRECTORY != 0) = true
    decide

/-- An entry of the tree whose inode has the directory flag is a directory of the tree. -/
theorem isDirectory_of_entry {d : Disk} (h : TreeInv d) {i j : ℕ} (hi : IsDirectory d i)
    (hj : j < 16) (hp : (slot d i j).isPresent = true)
    (hd : (inodeAt d (slot d i j).inodeIdx.toNat).isDir = true) :
    IsDirectory d (slot d i j).inodeIdx.toNat := by
  rcases Nat.lt_or_ge j 2 with hj2 | hj2
  · interval_cases j
    · rw [(h.dot i hi).2]
      exact hi
    · exact (h.dotdot i hi).2
  · exact ((h.child i j _ ⟨hi, hj2, hj, hp, rfl⟩).2 hd).1

/-- The node of an entry of the tree. -/
theorem nodeOk_of_entry {d : Disk} (h : TreeInv d) {p : UInt32} {j : ℕ} {name : CStr}
    (hi : IsDirectory d p.toNat) (hj : j < 16) (hp : (slot d p.toNat j).isPresent = true)
    (hn : (slot d p.toNat j).HasName name) :
    NodeOk d (nodeOf name (slot d p.toNat j).inodeIdx p
      (inodeAt d (slot d p.toNat j).inodeIdx.toNat)) := by
  obtain ⟨_, hlt, hu⟩ := h.entry _ hi j hj hp
  constructor
  · intro hd
    rw [isDirectory_nodeOf] at hd
    exact isDirectory_of_entry h hi hj hp hd
  · intro hf
    rw [isDirectory_nodeOf] at hf
    exact ⟨⟨hlt, hu, hf⟩, hi, j, hj, hp, hn, rfl⟩

theorem vfsLookup_nodeOk {io : Io} (h : FsInv io.disk) {n m : VfsNode} (hn : NodeOk io.disk n)
    {name : CStr} (he : vfsLookup io n name = some m) : NodeOk io.disk m := by
  unfold vfsLookup at he
  dsimp only at he
  split_ifs at he with h1 h2 h3
  · cases he
    exact hn
  · have hdir := hn.dir (by simpa using h1)
    rcases simplefsLookup_cases h.tree hdir name with ⟨hl, _⟩ | ⟨j, hj, hp, hname, hl, _⟩
    · rw [hl] at h3
      omega
    · rw [hl, cUInt_cInt] at he
      obtain ⟨_, hlt, _⟩ := h.tree.entry _ hdir j hj hp
      unfold simplefsGetInode at he
      rw [if_neg (by simp only [INODE_COUNT]; omega), readInode_eq] at he
      cases he
      exact nodeOk_of_entry h.tree hdir hj hp hname

theorem vfsLookup_of_absent {io : Io} (h : TreeInv io.disk) {n : VfsNode}
    (hd : IsDirectory io.disk n.inodeIdx.toNat) {name : CStr}
    (habs : Absent io.disk n.inodeIdx.toNat name) (hne : name ≠ dot) :
    vfsLookup io n name = none := by
  have hdot : ¬ CStr.strcmp name.byteAt dot = 0 := by
    rw [CStr.strcmp_eq_zero_iff]
    exact fun hdot => hne (CStr.Holds.unique (fun _ _ => rfl) hdot)
  have hl := (simplefsLookup_eq_neg_one_iff h hd name).2 habs
  unfold vfsLookup
  simp [hdot, hl]

/-- What `simplefs_get_direntry` reads in a directory of the tree. -/
theorem simplefsGetDirentry_some {io : Io} {k : UInt32} {index : ℤ} {e : DirEntry}
    (he : simplefsGetDirentry io k index = some e) :
    ∃ j < 16, (slot io.disk k.toNat j).isPresent = true ∧ e = slot io.disk k.toNat j := by
  unfold simplefsGetDirentry at he
  dsimp only at he
  split_ifs at he with h1 h2 h3
  refine ⟨index.toNat, ?_, ?_, ?_⟩
  · simp only [ENTRIES_PER_BLOCK] at h1
    omega
  · have hp : ¬ (!(slot io.disk k.toNat index.toNat).isPresent) = true := h3
    simpa using hp
  · cases he
    rfl

theorem vfsReaddir_nodeOk {io : Io} (h : FsInv io.disk) {n m : VfsNode} (hn : NodeOk io.disk n)
    {index : ℤ} (he : vfsReaddir io n index = some m) : NodeOk io.disk m := by
  unfold vfsReaddir at he
  split_ifs at he with h1
  have hdir := hn.dir (by simpa using h1)
  obtain ⟨e, hs, rfl⟩ := Option.map_eq_some_iff.mp he
  obtain ⟨j, hj, hp, rfl⟩ := simplefsGetDirentry_some hs
  obtain ⟨⟨s, hname⟩, hlt, _⟩ := h.tree.entry _ hdir j hj hp
  unfold simplefsGetInode
  rw [if_neg (by simp only [INODE_COUNT]; omega), readInode_eq, Option.getD_some, hname.name_eq]
  exact nodeOk_of_entry h.tree hdir hj hp hname

theorem resolveLoop_nodeOk {io : Io} (h : FsInv io.disk) (path : List UInt8) :
    ∀ (cur : VfsNode) (token : List UInt8) (m : VfsNode), NodeOk io.disk cur →
      resolveLoop io path cur token = some (some m) → NodeOk io.disk m := by
  induction path with
  | nil =>
      intro cur token m hc he
      unfold resolveLoop at he
      split_ifs at he
      · cases he
        exact hc
      · rw [Option.some.injEq] at he
        exact vfsLookup_nodeOk h hc he
  | cons c rest ih =>
      intro cur token m hc he
      unfold resolveLoop at he
      split_ifs at he
      · exact ih cur [] m hc he
      · cases hs : resolveStep io cur token with
        | none => simp [hs] at he
        | some next =>
            rw [hs] at he
            exact ih next [] m (vfsLookup_nodeOk h hc hs) he
      · exact ih cur _ m hc he

theorem vfsResolvePath_nodeOk {io : Io} (h : FsInv io.disk) {root cwd m : VfsNode} (path : CStr)
    (hr : NodeOk io.disk root) (hc : NodeOk io.disk cwd)
    (he : vfsResolvePath io root cwd path = some (some m)) : NodeOk io.disk m := by
  unfold vfsResolvePath at he
  split at he
  · cases he
    exact hc
  · split_ifs at he
    · exact resolveLoop_nodeOk h _ root [] m hr he
    · exact resolveLoop_nodeOk h _ cwd [] m hc he

/-! ### Calls -/

theorem NodeOk.parent {d : Disk} {n : VfsNode} (hn : NodeOk d n) :
    IsDirectory d n.inodeIdx.toNat ∨ (inodeAt d n.inodeIdx.toNat).isDir = false := by
  by_cases hd : n.isDirectory = true
  · exact Or.inl (hn.dir hd)
  · exact Or.inr (hn.file (by simpa using hd)).1.file

theorem vfsCreate_spec {io : Io} (h : FsInv io.disk) {n : VfsNode} (hn : NodeOk io.disk n)
    (name : CStr) : SafeRun io (vfsCreate io n name).2.1 ∧
      ∀ m ∈ (vfsCreate io n name).2.2, NodeOk (vfsCreate io n name).2.1.disk m := by
  have hrun := simplefsCreate_safe h hn.parent name
  unfold vfsCreate
  split_ifs with h1
  · exact ⟨SafeRun.refl io, fun m hm => by simp at hm⟩
  · generalize simplefsCreate io n.inodeIdx name = r at hrun
    by_cases h2 : r.1 < 0
    · simp only [h2, if_true]
      exact ⟨hrun, fun m hm => by simp at hm⟩
    · simp only [h2, if_false]
      exact ⟨hrun, fun m hm => vfsLookup_nodeOk (hrun.inv h) (hn.grows (hrun.grows h)) hm⟩

theorem vfsMkdir_spec {io : Io} {sb : Superblock} (h : FsInv io.disk)
    (hsb : sb.dataBlockStart = 17) {n : VfsNode} (hn : NodeOk io.disk n) (name : CStr) :
    SafeRun io (vfsMkdir io sb n name).2.1 ∧
      ∀ m ∈ (vfsMkdir io sb n name).2.2, NodeOk (vfsMkdir io sb n name).2.1.disk m := by
  have hrun := simplefsMkdir_safe h hsb hn.parent name
  unfold vfsMkdir
  split_ifs with h1
  · exact ⟨SafeRun.refl io, fun m hm => by simp at hm⟩
  · generalize simplefsMkdir io sb n.inodeIdx name = r at hrun
    by_cases h2 : r.1 < 0
    · simp only [h2, if_true]
      exact ⟨hrun, fun m hm => by simp at hm⟩
    · simp only [h2, if_false]
      exact ⟨hrun, fun m hm => vfsLookup_nodeOk (hrun.inv h) (hn.grows (hrun.grows h)) hm⟩

/-- A file node is found under its name. -/
theorem NodeOk.lookup {io : Io} (h : FsInv io.disk) {n : VfsNode} (hn : NodeOk io.disk n)
    (hf : n.isDirectory = false) :
    simplefsLookup io n.parentIdx n.name = cInt n.inodeIdx := by
  obtain ⟨_, h2, j, hj, hp, hname, hx⟩ := hn.file hf
  rw [simplefsLookup_of_hasName h.tree h2 hj hp hname, hx]

theorem vfsWrite_spec {io : Io} {sb : Superblock} (h : FsInv io.disk)
    (hsb : sb.dataBlockStart = 17) {n : VfsNode} (hn : NodeOk io.disk n) (buf : ℕ → UInt8)
    (size : UInt32) : SafeRun io (vfsWrite io sb n buf size).2.1 ∧
      NodeOk (vfsWrite io sb n buf size).2.1.disk (vfsWrite io sb n buf size).2.2 := by
  unfold vfsWrite
  by_cases h1 : n.isDirectory = true
  · rw [if_pos h1]
    exact ⟨SafeRun.refl io, hn⟩
  · have hf : n.isDirectory = false := by simpa using h1
    rw [if_neg h1]
    have hrun : SafeRun io (simplefsWrite io sb n.parentIdx n.name buf size).2 := by
      refine simplefsWrite_safe h hsb _ _ buf size (Or.inr ?_)
      rw [hn.lookup h hf, cUInt_cInt]
      exact (hn.file hf).1
    generalize simplefsWrite io sb n.parentIdx n.name buf size = r at hrun
    have hn' := hn.grows (hrun.grows h)
    by_cases h2 : r.1 < 0
    · simp only [h2, if_true]
      exact ⟨hrun, hn'⟩
    · simp only [h2, if_false]
      exact ⟨hrun, ⟨hn'.dir, hn'.file⟩⟩

/-! ### Runs keep the invariant -/

/-- A mounted disk is not formatted again. -/
theorem simplefsInit_of_inv {io : Io} (h : FsInv io.disk) :
    simplefsInit io = (io, formatSuperblock) := by
  have hn : needsFormat io.disk = false := by
    unfold needsFormat
    rw [h.superblock]
    decide
  unfold simplefsInit
  rw [hn]
  show (io, getSuperblock (io.disk SUPERBLOCK_SECTOR)) = _
  rw [h.superblock]

/-- Tables and data were only ever written to the data area. -/
def LogOk (io : Io) : Prop :=
  ∀ w ∈ io.log, w.purpose = .dirTable ∨ w.purpose = .data → 17 ≤ w.lba

theorem SafeRun.logOk {io io' : Io} (h : SafeRun io io') (hi : FsInv io.disk) (hl : LogOk io) :
    LogOk io' := by
  obtain ⟨ws, hs, rfl⟩ := h
  intro w hw hp
  rw [Io.log_replay] at hw
  rcases List.mem_append.mp hw with hw | hw
  · exact hl w hw hp
  · exact (hs.inv hi).2.2 w hw hp

/-- A call cut off between two writes has still made a chain of writes. -/
theorem SafeRun.cutIo {io io' : Io} (h : SafeRun io io') (k : ℕ) :
    SafeRun io (VfsState.cutIo io io' k) := by
  obtain ⟨ws, hs, rfl⟩ := h
  refine ⟨ws.take k, hs.take k, ?_⟩
  unfold VfsState.cutIo
  rw [Io.log_replay, List.drop_left]

structure VfsState.Ok (s : VfsState) : Prop where
  inv : FsInv s.io.disk
  sb : s.sb = formatSuperblock
  nodes : ∀ n ∈ s.nodes, NodeOk s.io.disk n
  log : LogOk s.io

namespace VfsState.Ok

theorem of_safeRun {s : VfsState} (h : s.Ok) {io : Io} (hrun : SafeRun s.io io)
    {nodes : List VfsNode} (hn : ∀ n ∈ nodes, NodeOk io.disk n) :
    VfsState.Ok ⟨io, s.sb, nodes⟩ :=
  ⟨hrun.inv h.inv, h.sb, hn, SafeRun.logOk hrun h.inv h.log⟩

theorem node {s : VfsState} (h : s.Ok) {i : ℕ} {n : VfsNode} (hn : s.nodes[i]? = some n) :
    NodeOk s.io.disk n := h.nodes n (List.mem_of_getElem? hn)

theorem note {s : VfsState} (h : s.Ok) {n : Option VfsNode}
    (hn : ∀ m ∈ n, NodeOk s.io.disk m) : (s.note n).Ok := by
  refine ⟨h.inv, h.sb, fun m hm => ?_, h.log⟩
  rcases List.mem_append.mp hm with hm | hm
  · exact h.nodes m hm
  · exact hn m (Option.mem_toList.mp hm)

theorem call {s : VfsState} (h : s.Ok) (c : VfsCall) :
    (s.call c).Ok ∧ SafeRun s.io (s.call c).io := by
  have hsb : s.sb.dataBlockStart = 17 := by rw [h.sb]; rfl
  cases c with
  | lookup dir name =>
      simp only [VfsState.call]
      cases hn : s.nodes[dir]? with
      | none => exact ⟨h, SafeRun.refl _⟩
      | some n =>
          exact ⟨h.note fun m hm => vfsLookup_nodeOk h.inv (h.node hn) hm, SafeRun.refl _⟩
  | readdir dir index =>
      simp only [VfsState.call]
      cases hn : s.nodes[dir]? with
      | none => exact ⟨h, SafeRun.refl _⟩
      | some n =>
          exact ⟨h.note fun m hm => vfsReaddir_nodeOk h.inv (h.node hn) hm, SafeRun.refl _⟩
  | resolvePath cwd path =>
      simp only [VfsState.call]
      cases hn : s.nodes[cwd]? with
      | none => exact ⟨h, SafeRun.refl _⟩
      | some n =>
          cases hr : s.nodes[0]? with
          | none => exact ⟨h, SafeRun.refl _⟩
          | some root =>
              refine ⟨h.note fun m hm => ?_, SafeRun.refl _⟩
              refine vfsResolvePath_nodeOk h.inv path (h.node hr) (h.node hn) ?_
              cases hp : vfsResolvePath s.io root n path with
              | none => simp [hp] at hm
              | some r =>
                  rw [hp] at hm
                  exact congrArg some hm
  | create parent name =>
      simp only [VfsState.call]
      cases hn : s.nodes[parent]? with
      | none => exact ⟨h, SafeRun.refl _⟩
      | some n =>
          obtain ⟨hrun, hout⟩ := vfsCreate_spec h.inv (h.node hn) name
          refine ⟨VfsState.Ok.note (h.of_safeRun hrun fun m hm => ?_) hout, hrun⟩
          exact (h.nodes m hm).grows (hrun.grows h.inv)
  | mkdir parent name =>
      simp only [VfsState.call]
      cases hn : s.nodes[parent]? with
      | none => exact ⟨h, SafeRun.refl _⟩
      | some n =>
          obtain ⟨hrun, hout⟩ := vfsMkdir_spec h.inv hsb (h.node hn) name
          refine ⟨VfsState.Ok.note (h.of_safeRun hrun fun m hm => ?_) hout, hrun⟩
          exact (h.nodes m hm).grows (hrun.grows h.inv)
  | write file buf size =>
      simp only [VfsState.call]
      cases hn : s.nodes[file]? with
      | none => exact ⟨h, SafeRun.refl _⟩
      | some n =>
          obtain ⟨hrun, hout⟩ := vfsWrite_spec h.inv hsb (h.node hn) buf size
          refine ⟨h.of_safeRun hrun fun m hm => ?_, hrun⟩
          rcases List.mem_or_eq_of_mem_set hm with hm | rfl
          · exact (h.nodes m hm).grows (hrun.grows h.inv)
          · exact hout

theorem event {s : VfsState} (h : s.Ok) (e : VfsEvent) : (s.event e).Ok := by
  cases e with
  | done c => exact (h.call c).1
  | cut c k =>
      have hrun := SafeRun.cutIo (h.call c).2 k
      simp only [VfsState.event]
      rw [simplefsInit_of_inv (hrun.inv h.inv), ← h.sb]
      exact h.of_safeRun hrun fun n hn => (h.nodes n hn).grows (hrun.grows h.inv)

theorem run {s : VfsState} (h : s.Ok) (es : List VfsEvent) : (s.run es).Ok := by
  induction es generalizing s with
  | nil => exact h
  | cons e es ih => exact ih (h.event e)

/-- A format leaves a state that satisfies the invariant. -/
theorem init {d : Disk} (hd : needsFormat d = true) : (VfsState.init d).Ok := by
  have hi : simplefsInit ⟨d, []⟩ = (formatDisk ⟨d, []⟩, formatSuperblock) := by
    unfold simplefsInit
    rw [if_pos hd]
  have hinv := formatDisk_inv ⟨d, []⟩
  obtain ⟨ws, hlog, hws⟩ := formatDisk_log ⟨d, []⟩
  simp only [VfsState.init, vfsInit, hi]
  refine ⟨hinv, rfl, fun n hn => ?_, fun w hw hp => ?_⟩
  · rw [List.mem_singleton] at hn
    subst hn
    refine ⟨fun _ => hinv.tree.root, fun hf => ?_⟩
    exact absurd hf (by show ¬ (VFS_DIRECTORY &&& VFS_DIRECTORY != 0) = false; decide)
  · rw [hlog, List.nil_append] at hw
    exact hws w hw hp

end VfsState.Ok

/-! ### Block ownership -/

/-- A block is in at most one slot of the used inodes, every slot in use points into the data
area, and no table or data was ever written outside it. -/
structure BlockOwnership (io : Io) : Prop where
  unique : ∀ i < INODE_COUNT, ∀ i' < INODE_COUNT, ∀ j < DIRECT_BLOCKS, ∀ j' < DIRECT_BLOCKS,
    (inodeAt io.disk i).isUsed = true → (inodeAt io.disk i').isUsed = true →
    (inodeAt io.disk i).block j ≠ 0 →
    (inodeAt io.disk i').block j' = (inodeAt io.disk i).block j → i' = i ∧ j' = j
  range : ∀ i < INODE_COUNT, ∀ j < DIRECT_BLOCKS, (inodeAt io.disk i).isUsed = true →
    (inodeAt io.disk i).block j ≠ 0 →
    DATA_START_SECTOR ≤ ((inodeAt io.disk i).block j).toNat ∧
      ((inodeAt io.disk i).block j).toNat < TOTAL_SECTORS
  log : ∀ w ∈ io.log, w.purpose = .dirTable ∨ w.purpose = .data → DATA_START_SECTOR ≤ w.lba

/-- **Block ownership along every run**, whatever calls are made after a format and wherever
they are cut off. -/
theorem run_block_ownership (d : Disk) (hd : needsFormat d = true) (es : List VfsEvent) :
    BlockOwnership ((VfsState.init d).run es).io := by
  have h : ((VfsState.init d).run es).Ok := (VfsState.Ok.init hd).run es
  refine ⟨?_, ?_, h.log⟩
  · intro i hi i' hi' j hj j' hj' hu hu' hne he
    exact h.inv.blocks.unique i hi hu j hj hne i' hi' hu' j' hj' he
  · intro i hi j hj hu hne
    exact h.inv.blocks.range i hi hu j hj hne

/-- A blank disk. -/
def blankDisk : Disk := fun _ => Buf.zero

theorem run_block_ownership_blank : needsFormat blankDisk = true ∧
    BlockOwnership ((VfsState.init blankDisk).run [.cut (.mkdir 0 ⟨[97], by decide⟩) 2,
      .done (.mkdir 0 ⟨[97], by decide⟩), .done (.create 1 ⟨[98], by decide⟩),
      .cut (.write 2 (fun _ => 7) 600) 3]).io :=
  ⟨by decide, run_block_ownership blankDisk (by decide) _⟩

/-! ### The directory tree -/

/-- The root, and every directory inode named by an entry of such a directory. -/
inductive Reach (d : Disk) : ℕ → Prop
  | root : Reach d 0
  | entry {i : ℕ} (j : ℕ) : Reach d i → j < ENTRIES_PER_BLOCK → (slot d i j).isPresent = true →
      (inodeAt d (slot d i j).inodeIdx.toNat).isDir = true → Reach d (slot d i j).inodeIdx.toNat

/-- Entry `j` of the reachable directory `p` names inode `k` and is neither `.` nor `..`. -/
structure Names (d : Disk) (p j k : ℕ) : Prop where
  reach : Reach d p
  lt : j < ENTRIES_PER_BLOCK
  present : (slot d p j).isPresent = true
  not_dot : ¬ (slot d p j).HasName dot
  not_dotdot : ¬ (slot d p j).HasName dotdot
  idx : (slot d p j).inodeIdx.toNat = k

/-- Follow the `..` entry of directory `i`. -/
def up (io : Io) (i : ℕ) : ℕ := (simplefsLookup io (UInt32.ofNat i) dotdot).toNat

/-- Directory `i` is named by directory `p` on a path from the root (the root by itself). -/
inductive NamedBy (d : Disk) : ℕ → ℕ → Prop
  | root : NamedBy d 0 0
  | child {q i j k : ℕ} : NamedBy d q i → Child d i j k → (inodeAt d k).isDir = true →
      NamedBy d i k

theorem NamedBy.isDirectory {d : Disk} (h : TreeInv d) {p i : ℕ} (hn : NamedBy d p i) :
    IsDirectory d i := by
  cases hn with
  | root => exact h.root
  | child _ hc hd => exact ((h.child _ _ _ hc).2 hd).1

/-- The `..` entry of a directory is the directory that names it. -/
theorem NamedBy.dotdot {d : Disk} (h : TreeInv d) {p i : ℕ} (hn : NamedBy d p i) :
    (slot d i 1).inodeIdx.toNat = p := by
  cases hn with
  | root => exact h.rootUp
  | child _ hc hd => exact ((h.child _ _ _ hc).2 hd).2

theorem NamedBy.parent {d : Disk} {p i : ℕ} (hn : NamedBy d p i) : ∃ q, NamedBy d q p := by
  cases hn with
  | root => exact ⟨0, NamedBy.root⟩
  | child hq _ _ => exact ⟨_, hq⟩

theorem Reach.namedBy {d : Disk} (h : TreeInv d) {i : ℕ} (hr : Reach d i) :
    ∃ p, NamedBy d p i := by
  induction hr with
  | root => exact ⟨0, NamedBy.root⟩
  | @entry i j _ hj hp hd ih =>
      obtain ⟨p, hn⟩ := ih
      have hi := hn.isDirectory h
      rcases Nat.lt_or_ge j 2 with hj2 | hj2
      · interval_cases j
        · rw [(h.dot i hi).2]
          exact ⟨p, hn⟩
        · rw [hn.dotdot h]
          exact hn.parent
      · exact ⟨i, NamedBy.child hn ⟨hi, hj2, hj, hp, rfl⟩ hd⟩

theorem NamedBy.reach {d : Disk} {p i : ℕ} (hn : NamedBy d p i) : Reach d i := by
  induction hn with
  | root => exact Reach.root
  | child _ hc hd ih =>
      obtain ⟨hdir, _, hlt, hp, rfl⟩ := hc
      exact Reach.entry _ ih hlt hp hd

theorem Reach.isDirectory {d : Disk} (h : TreeInv d) {i : ℕ} (hr : Reach d i) :
    IsDirectory d i := by
  obtain ⟨p, hn⟩ := hr.namedBy h
  exact hn.isDirectory h

theorem Names.child {d : Disk} (h : TreeInv d) {p j k : ℕ} (hn : Names d p j k) :
    Child d p j k := by
  have hp := hn.reach.isDirectory h
  refine ⟨hp, ?_, hn.lt, hn.present, hn.idx⟩
  by_contra hj
  have hj2 : j < 2 := by omega
  interval_cases j
  · exact hn.not_dot (h.dot p hp).1
  · exact hn.not_dotdot (h.dotdot p hp).1

theorem names_of_child {d : Disk} (h : TreeInv d) {p j k : ℕ} (hr : Reach d p)
    (hc : Child d p j k) : Names d p j k := by
  have hlt := hc.lt
  have htwo := hc.two_le
  refine ⟨hr, hlt, hc.present, fun hd => ?_, fun hd => ?_, hc.idx⟩
  · have h0 := (h.dot p hc.dir).1
    have := h.names p hc.dir j hlt 0 (by omega) hc.present
      (h0.isPresent_iff.mpr (by decide)) _ hd h0
    omega
  · have h1 := (h.dotdot p hc.dir).1
    have := h.names p hc.dir j hlt 1 (by omega) hc.present
      (h1.isPresent_iff.mpr (by decide)) _ hd h1
    omega

/-- Looking up `..` reads the directory's second entry. -/
theorem up_eq {io : Io} (h : TreeInv io.disk) {i : ℕ} (hi : IsDirectory io.disk i) :
    up io i = (slot io.disk i 1).inodeIdx.toNat := by
  have hk : (UInt32.ofNat i).toNat = i := toNat_ofNat_lt hi.lt
  have hdd := (h.dotdot i hi).1
  have hp := hdd.isPresent_iff.mpr (by decide)
  have hl := simplefsLookup_of_hasName h (k := UInt32.ofNat i) (by rw [hk]; exact hi)
    (show 1 < 16 by omega) (by rw [hk]; exact hp) (by rw [hk]; exact hdd)
  unfold up
  rw [hl, hk, cInt_of_lt (h.entry i hi 1 (by omega) hp).2.1, Int.toNat_natCast]

/-- Following `..` from a directory of the tree ends at the root. -/
theorem NamedBy.up_reaches_root {io : Io} (h : TreeInv io.disk) {p i : ℕ}
    (hn : NamedBy io.disk p i) : ∃ n, (up io)^[n] i = 0 := by
  induction hn with
  | root => exact ⟨0, rfl⟩
  | @child q i j k hq hc hd ih =>
      obtain ⟨n, hn⟩ := ih
      have hk := NamedBy.child hq hc hd
      refine ⟨n + 1, ?_⟩
      rw [Function.iterate_succ_apply, up_eq h (hk.isDirectory h), hk.dotdot h, hn]

/-- Every reachable directory starts with itself and with the directory that names it, its
names are terminated, non-empty and distinct, its entries are inodes in use, and no inode has
two names; so `..` leads back to the root. -/
structure DirectoryTree (io : Io) : Prop where
  dot : ∀ i, Reach io.disk i →
    (slot io.disk i 0).HasName dot ∧ (slot io.disk i 0).inodeIdx.toNat = i
  dotdot : ∀ i, Reach io.disk i → (slot io.disk i 1).HasName dotdot ∧
    (i = 0 → (slot io.disk i 1).inodeIdx.toNat = 0) ∧
    (i ≠ 0 → ∃ j, Names io.disk (slot io.disk i 1).inodeIdx.toNat j i)
  entry : ∀ i, Reach io.disk i → ∀ j < ENTRIES_PER_BLOCK, (slot io.disk i j).isPresent = true →
    (slot io.disk i j).HasName (slot io.disk i j).name ∧ (slot io.disk i j).name.strlen ≠ 0 ∧
    (slot io.disk i j).inodeIdx.toNat < INODE_COUNT ∧
    (inodeAt io.disk (slot io.disk i j).inodeIdx.toNat).isUsed = true
  names : ∀ i, Reach io.disk i → ∀ j < ENTRIES_PER_BLOCK, ∀ j' < ENTRIES_PER_BLOCK,
    (slot io.disk i j).isPresent = true → (slot io.disk i j').isPresent = true →
    (slot io.disk i j).name = (slot io.disk i j').name → j = j'
  unique : ∀ p j p' j' k, Names io.disk p j k → Names io.disk p' j' k → p = p' ∧ j = j'
  up : ∀ i, Reach io.disk i → ∃ n, (up io)^[n] i = 0

/-- The tree part of the disk invariant, read from the root. -/
theorem directoryTree_of_treeInv {io : Io} (h : TreeInv io.disk) : DirectoryTree io := by
  have hname : ∀ i, IsDirectory io.disk i → ∀ j < 16, (slot io.disk i j).isPresent = true →
      (slot io.disk i j).HasName (slot io.disk i j).name := by
    intro i hi j hj hp
    obtain ⟨s, hs⟩ := (h.entry i hi j hj hp).1
    rw [hs.name_eq]
    exact hs
  refine ⟨fun i hr => h.dot i (hr.isDirectory h), ?_, ?_, ?_, ?_, ?_⟩
  · intro i hr
    refine ⟨(h.dotdot i (hr.isDirectory h)).1, ?_, fun h0 => ?_⟩
    · rintro rfl
      exact h.rootUp
    · obtain ⟨p, hn⟩ := hr.namedBy h
      rw [hn.dotdot h]
      cases hn with
      | root => exact absurd rfl h0
      | child hq hc _ => exact ⟨_, names_of_child h hq.reach hc⟩
  · intro i hr j hj hp
    have hi := hr.isDirectory h
    obtain ⟨_, h1, h2⟩ := h.entry i hi j hj hp
    exact ⟨hname i hi j hj hp, (hname i hi j hj hp).isPresent_iff.mp hp, h1, h2⟩
  · intro i hr j hj j' hj' hp hp' he
    have hi := hr.isDirectory h
    exact h.names i hi j hj j' hj' hp hp' _ (hname i hi j hj hp) (he ▸ hname i hi j' hj' hp')
  · intro p j p' j' k hn hn'
    exact h.childUnique p j p' j' k (hn.child h) (hn'.child h)
  · intro i hr
    obtain ⟨p, hn⟩ := hr.namedBy h
    exact hn.up_reaches_root h

/-- **The directory tree along every run**, whatever calls are made after a format and
wherever they are cut off. -/
theorem run_directory_tree (d : Disk) (hd : needsFormat d = true) (es : List VfsEvent) :
    DirectoryTree ((VfsState.init d).run es).io :=
  directoryTree_of_treeInv ((VfsState.Ok.init hd).run es).inv.tree

theorem run_directory_tree_blank : needsFormat blankDisk = true ∧
    DirectoryTree ((VfsState.init blankDisk).run [.done (.mkdir 0 ⟨[97], by decide⟩),
      .cut (.mkdir 1 ⟨[98], by decide⟩) 3, .done (.mkdir 1 ⟨[98], by decide⟩)]).io :=
  ⟨by decide, run_directory_tree blankDisk (by decide) _⟩

end NosmeriOs.Vfs
