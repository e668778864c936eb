import NosmeriOs.AtaSimpleFs

/-! # Calls of the file system, down to the ports

`fs/vfs.cpp` as code that calls the disk driver, and the calls that `VfsState` makes.

* `run_call`: what the calls do, sector by sector, is what `VfsState.call` says; `run_vfsRead`: so
  it is for `vfs_read`, which keeps the nodes.
* `inRange_call`, `inRange_vfsRead`: in the states that are reached they stay on the disk. -/

namespace NosmeriOs.Ata

open Bytes PortIo
open SimpleFs (Sector Disk Io Inode Superblock Purpose FsInv)
open Vfs (VfsNode VfsCall VfsState NodeOk)

namespace DiskProg

def vfsInit : DiskProg (Superblock × VfsNode) := do
  let sb ← simplefsInit
  let rootInode ← simplefsGetInode 0
  let size := match rootInode with
    | some rootInode => rootInode.size
    | none => 0
  return (sb, ⟨Vfs.slash, Vfs.VFS_DIRECTORY, size, 0, 0⟩)

def vfsLookup (dirNode : VfsNode) (name : CStr) : DiskProg (Option VfsNode) := do
  if !dirNode.isDirectory then return none
  else if CStr.strcmp name.byteAt SimpleFs.dot = 0 then return some dirNode
  else
    let targetInodeIdx ← simplefsLookup dirNode.inodeIdx name
    if targetInodeIdx < 0 then return none
    else
      let targetInode ← simplefsGetInode (SimpleFs.cUInt targetInodeIdx)
      return targetInode.map fun targetInode =>
        Vfs.nodeOf name (SimpleFs.cUInt targetInodeIdx) dirNode.inodeIdx targetInode

/-- `vfs_create` and `vfs_mkdir`, which differ in what they call in `fs/simplefs.cpp`. -/
def vfsMake (make : DiskProg ℤ) (parent : VfsNode) (name : CStr) :
    DiskProg (ℤ × Option VfsNode) := do
  let dummy ← vfsLookup parent name
  if dummy.isSome then return (-1, none)
  else
    let result ← make
    if result < 0 then return (-1, none)
    else
      let outNode ← vfsLookup parent name
      return (0, outNode)

def vfsCreate (parent : VfsNode) (name : CStr) : DiskProg (ℤ × Option VfsNode) :=
  vfsMake (simplefsCreate parent.inodeIdx name) parent name

def vfsMkdir (sb : Superblock) (parent : VfsNode) (name : CStr) : DiskProg (ℤ × Option VfsNode) :=
  vfsMake (simplefsMkdir sb parent.inodeIdx name) parent name

def vfsWrite (sb : Superblock) (file : VfsNode) (buf : ℕ → UInt8) (size : UInt32) :
    DiskProg (ℤ × VfsNode) := do
  if file.isDirectory then return (-1, file)
  else
    let result ← simplefsWrite sb file.parentIdx file.name buf size
    if result < 0 then return (-1, file) else return (result, { file with size := size })

def vfsRead (file : VfsNode) (size : UInt32) : DiskProg (Option (ℤ × List UInt8)) :=
  if file.isDirectory then return some (-1, [])
  else simplefsRead file.parentIdx file.name size

def vfsReaddir (dir : VfsNode) (index : ℤ) : DiskProg (Option VfsNode) := do
  if !dir.isDirectory then return none
  else
    match ← simplefsGetDirentry dir.inodeIdx index with
    | none => return none
    | some dirEntry =>
        let inode ← simplefsGetInode dirEntry.inodeIdx
        return some (Vfs.nodeOf dirEntry.name dirEntry.inodeIdx dir.inodeIdx
          (inode.getD (Inode.fresh 0)))

def resolveStep (cur : VfsNode) (token : List UInt8) : DiskProg (Option VfsNode) :=
  vfsLookup cur (CStr.ofMem token.length (token.getD · 0))

def resolveLoop : List UInt8 → VfsNode → List UInt8 → DiskProg (Option (Option VfsNode))
  | [], cur, token =>
      if token.length = 0 then return some (some cur)
      else if Vfs.TOKEN_SIZE ≤ token.length then return none
      else do
        let next ← resolveStep cur token
        return some next
  | c :: rest, cur, token =>
      if c = 47 then
        if token.length = 0 then resolveLoop rest cur []
        else if Vfs.TOKEN_SIZE ≤ token.length then return none
        else do
          match ← resolveStep cur token with
          | none => return some none
          | some next => resolveLoop rest next []
      else if Vfs.TOKEN_SIZE ≤ token.length then return none
      else resolveLoop rest cur (token ++ [c])

def vfsResolvePath (vfsRoot currentDir : VfsNode) (path : CStr) :
    DiskProg (Option (Option VfsNode)) :=
  match path.bytes with
  | [] => return some (some currentDir)
  | c :: rest =>
      if c = 47 then resolveLoop (rest.dropWhile (· = 47)) vfsRoot []
      else resolveLoop (c :: rest) currentDir []

/-- A call, with the superblock and the nodes that the kernel has; the nodes it has then.  A path
that overruns the token leaves them as they are. -/
def call (sb : Superblock) (nodes : List VfsNode) : VfsCall → DiskProg (List VfsNode)
  | .lookup dir name => match nodes[dir]? with
    | some n => do
        let out ← vfsLookup n name
        return nodes ++ out.toList
    | none => return nodes
  | .readdir dir index => match nodes[dir]? with
    | some n => do
        let out ← vfsReaddir n index
        return nodes ++ out.toList
    | none => return nodes
  | .resolvePath currentDir path => match nodes[currentDir]?, nodes[0]? with
    | some n, some vfsRoot => do
        let out ← vfsResolvePath vfsRoot n path
        return nodes ++ (out.getD none).toList
    | _, _ => return nodes
  | .create parent name => match nodes[parent]? with
    | some n => do
        let r ← vfsCreate n name
        return nodes ++ r.2.toList
    | none => return nodes
  | .mkdir parent name => match nodes[parent]? with
    | some n => do
        let r ← vfsMkdir sb n name
        return nodes ++ r.2.toList
    | none => return nodes
  | .write file buf size => match nodes[file]? with
    | some n => do
        let r ← vfsWrite sb n buf size
        return nodes.set file r.2
    | none => return nodes

/-! ### What they do -/

section run
variable (io : Io)

theorem run_vfsInit : vfsInit.run io =
    (((Vfs.vfsInit io).2.1, (Vfs.vfsInit io).2.2), (Vfs.vfsInit io).1) := by
  unfold vfsInit Vfs.vfsInit
  simp only [run_bind, run_simplefsInit, run_simplefsGetInode]
  rfl

@[simp] theorem run_vfsLookup (dirNode : VfsNode) (name : CStr) :
    (vfsLookup dirNode name).run io = (Vfs.vfsLookup io dirNode name, io) := by
  unfold vfsLookup Vfs.vfsLookup
  simp only [run_ite, run_bind, run_simplefsLookup, run_simplefsGetInode, run_pure]
  split_ifs <;> rfl

theorem run_vfsCreate (parent : VfsNode) (name : CStr) : (vfsCreate parent name).run io =
    (((Vfs.vfsCreate io parent name).1, (Vfs.vfsCreate io parent name).2.2),
      (Vfs.vfsCreate io parent name).2.1) := by
  unfold vfsCreate vfsMake Vfs.vfsCreate
  simp only [run_ite, run_bind, run_vfsLookup, run_simplefsCreate, run_pure]
  split_ifs <;> rfl

theorem run_vfsMkdir (sb : Superblock) (parent : VfsNode) (name : CStr) :
    (vfsMkdir sb parent name).run io =
      (((Vfs.vfsMkdir io sb parent name).1, (Vfs.vfsMkdir io sb parent name).2.2),
        (Vfs.vfsMkdir io sb parent name).2.1) := by
  unfold vfsMkdir vfsMake Vfs.vfsMkdir
  simp only [run_ite, run_bind, run_vfsLookup, run_simplefsMkdir, run_pure]
  split_ifs <;> rfl

theorem run_vfsWrite (sb : Superblock) (file : VfsNode) (buf : ℕ → UInt8) (size : UInt32) :
    (vfsWrite sb file buf size).run io =
      (((Vfs.vfsWrite io sb file buf size).1, (Vfs.vfsWrite io sb file buf size).2.2),
        (Vfs.vfsWrite io sb file buf size).2.1) := by
  unfold vfsWrite Vfs.vfsWrite
  simp only [run_ite, run_bind, run_simplefsWrite, run_pure]
  split_ifs <;> rfl

theorem run_vfsRead (file : VfsNode) (size : UInt32) :
    (vfsRead file size).run io = (Vfs.vfsRead io file size, io) := by
  unfold vfsRead Vfs.vfsRead
  simp only [run_ite, run_simplefsRead, run_pure]
  split_ifs <;> rfl

theorem run_vfsReaddir (dir : VfsNode) (index : ℤ) :
    (vfsReaddir dir index).run io = (Vfs.vfsReaddir io dir index, io) := by
  unfold vfsReaddir Vfs.vfsReaddir
  simp only [run_ite, run_bind, run_simplefsGetDirentry, run_pure]
  split_ifs
  · rfl
  · cases SimpleFs.simplefsGetDirentry io dir.inodeIdx index with
    | none => rfl
    | some dirEntry => simp only [run_bind, run_simplefsGetInode, run_pure, Option.map_some]

theorem run_resolveLoop (path : List UInt8) (cur : VfsNode) (token : List UInt8) :
    (resolveLoop path cur token).run io = (Vfs.resolveLoop io path cur token, io) := by
  induction path generalizing cur token with
  | nil =>
      unfold resolveLoop Vfs.resolveLoop resolveStep
      simp only [run_ite, run_bind, run_vfsLookup, run_pure]
      split_ifs <;> rfl
  | cons c rest ih =>
      unfold resolveLoop Vfs.resolveLoop resolveStep
      simp only [run_ite, run_bind, run_vfsLookup, run_pure, ih]
      split_ifs
      · rfl
      · rfl
      · show (match Vfs.resolveStep io cur token with
          | none => (return some none : DiskProg (Option (Option VfsNode)))
          | some next => resolveLoop rest next []).run io = _
        cases Vfs.resolveStep io cur token with
        | none => rfl
        | some next => exact ih next []
      · rfl
      · rfl

theorem run_vfsResolvePath (vfsRoot currentDir : VfsNode) (path : CStr) :
    (vfsResolvePath vfsRoot currentDir path).run io =
      (Vfs.vfsResolvePath io vfsRoot currentDir path, io) := by
  unfold vfsResolvePath Vfs.vfsResolvePath
  cases path.bytes with
  | nil => rfl
  | cons c rest =>
      simp only [run_ite, run_resolveLoop]
      split_ifs <;> rfl

end run

/-- The calls, sector by sector. -/
theorem run_call (s : VfsState) (c : VfsCall) :
    (call s.sb s.nodes c).run s.io = ((s.call c).nodes, (s.call c).io) := by
  cases c with
  | lookup dir name =>
      simp only [call, VfsState.call]
      cases s.nodes[dir]? with
      | none => rfl
      | some n => simp only [run_bind, run_vfsLookup, run_pure, VfsState.note]
  | readdir dir index =>
      simp only [call, VfsState.call]
      cases s.nodes[dir]? with
      | none => rfl
      | some n => simp only [run_bind, run_vfsReaddir, run_pure, VfsState.note]
  | resolvePath cwd path =>
      simp only [call, VfsState.call]
      cases s.nodes[cwd]? with
      | none => rfl
      | some n =>
          cases s.nodes[0]? with
          | none => rfl
          | some vfsRoot => simp only [run_bind, run_vfsResolvePath, run_pure, VfsState.note]
  | create parent name =>
      simp only [call, VfsState.call]
      cases s.nodes[parent]? with
      | none => rfl
      | some n => simp only [run_bind, run_vfsCreate, run_pure, VfsState.note]
  | mkdir parent name =>
      simp only [call, VfsState.call]
      cases s.nodes[parent]? with
      | none => rfl
      | some n => simp only [run_bind, run_vfsMkdir, run_pure, VfsState.note]
  | write file buf size =>
      simp only [call, VfsState.call]
      cases s.nodes[file]? with
      | none => rfl
      | some n => simp only [run_bind, run_vfsWrite, run_pure]

theorem call_sb (s : VfsState) (c : VfsCall) : (s.call c).sb = s.sb := by
  cases c with
  | lookup | readdir | create | mkdir | write =>
      simp only [VfsState.call]
      split <;> rfl
  | resolvePath =>
      simp only [VfsState.call]
      split <;> rfl

/-! ### The sectors they use -/

section inRange
variable {io : Io} {n : VfsNode}

theorem readable (h : FsInv io.disk) {k : ℕ} (hk : SimpleFs.IsDirectory io.disk k) :
    Readable io.disk k :=
  ⟨hk.lt, fun _ => (h.blocks.dirBlock_range hk).2.trans (by decide)⟩

theorem readable_node (h : FsInv io.disk) (hn : NodeOk io.disk n) :
    Readable io.disk n.inodeIdx.toNat := by
  cases hd : n.isDirectory with
  | true => exact readable h (hn.dir hd)
  | false =>
      refine ⟨(hn.file hd).1.lt, fun hdir => ?_⟩
      rw [(hn.file hd).1.file] at hdir
      cases hdir

theorem inRange_vfsInit : vfsInit.InRange io := by
  unfold vfsInit
  simp only [inRange_bind]
  exact ⟨inRange_simplefsInit, inRange_simplefsGetInode _, trivial⟩

theorem inRange_vfsLookup (h : FsInv io.disk) (hn : NodeOk io.disk n) (name : CStr) :
    (vfsLookup n name).InRange io := by
  refine inRange_ite (fun _ => trivial) fun _ => inRange_ite (fun _ => trivial) fun _ => ?_
  rw [inRange_bind]
  refine ⟨inRange_simplefsLookup (readable_node h hn) name,
    inRange_ite (fun _ => trivial) fun _ => ?_⟩
  rw [inRange_bind]
  exact ⟨inRange_simplefsGetInode _, trivial⟩

theorem inRange_vfsMake (h : FsInv io.disk) (hn : NodeOk io.disk n) {make : DiskProg ℤ}
    (hmake : make.InRange io) (hinv : FsInv (make.run io).2.disk)
    (hnode : NodeOk (make.run io).2.disk n) (name : CStr) : (vfsMake make n name).InRange io := by
  rw [vfsMake, inRange_bind, run_vfsLookup]
  refine ⟨inRange_vfsLookup h hn name, inRange_ite (fun _ => trivial) fun _ => ?_⟩
  rw [inRange_bind]
  refine ⟨hmake, inRange_ite (fun _ => trivial) fun _ => ?_⟩
  rw [inRange_bind]
  exact ⟨inRange_vfsLookup hinv hnode name, trivial⟩

theorem inRange_vfsCreate (h : FsInv io.disk) (hn : NodeOk io.disk n) (name : CStr) :
    (vfsCreate n name).InRange io := by
  have hrun := SimpleFs.simplefsCreate_safe h hn.parent name
  rw [← congrArg Prod.snd (run_simplefsCreate io n.inodeIdx name)] at hrun
  exact inRange_vfsMake h hn (inRange_simplefsCreate (readable_node h hn) name) (hrun.inv h)
    (hn.grows (hrun.grows h)) name

theorem inRange_vfsMkdir {sb : Superblock} (h : FsInv io.disk) (hsb : sb.dataBlockStart = 17)
    (hn : NodeOk io.disk n) (name : CStr) : (vfsMkdir sb n name).InRange io := by
  have hrun := SimpleFs.simplefsMkdir_safe h hsb hn.parent name
  rw [← congrArg Prod.snd (run_simplefsMkdir io sb n.inodeIdx name)] at hrun
  exact inRange_vfsMake h hn (inRange_simplefsMkdir hsb (readable_node h hn) name) (hrun.inv h)
    (hn.grows (hrun.grows h)) name

theorem block_lt (h : FsInv io.disk) {k : ℕ} (hk : k < 64)
    (hu : (SimpleFs.inodeAt io.disk k).isUsed = true) (j : ℕ) :
    ((SimpleFs.inodeAt io.disk k).block j).toNat < 2 ^ 28 := by
  by_cases h0 : (SimpleFs.inodeAt io.disk k).block j = 0
  · rw [h0]
    decide
  · have hj : j < 30 := by
      by_contra hj
      exact h0 (dif_neg hj)
    exact (h.blocks.range k hk hu j hj h0).2.trans (by decide)

/-- The inode that `simplefs_lookup` finds for the node of a file. -/
theorem inRange_file (h : FsInv io.disk) (hn : NodeOk io.disk n) (hf : n.isDirectory = false) :
    (SimpleFs.cUInt (SimpleFs.simplefsLookup io n.parentIdx n.name)).toNat < 64 ∧ ∀ j,
      ((SimpleFs.inodeAt io.disk
        (SimpleFs.cUInt (SimpleFs.simplefsLookup io n.parentIdx n.name)).toNat).block j).toNat <
          2 ^ 28 := by
  obtain ⟨hfile, -, -⟩ := hn.file hf
  rw [hn.lookup h hf, SimpleFs.cUInt_cInt]
  exact ⟨hfile.lt, block_lt h hfile.lt hfile.used⟩

theorem inRange_vfsWrite {sb : Superblock} (h : FsInv io.disk) (hsb : sb.dataBlockStart = 17)
    (hn : NodeOk io.disk n) (buf : ℕ → UInt8) (size : UInt32) :
    (vfsWrite sb n buf size).InRange io := by
  refine inRange_ite (fun _ => trivial) fun hd => ?_
  have hf : n.isDirectory = false := by simpa using hd
  rw [inRange_bind]
  exact ⟨inRange_simplefsWrite hsb (readable h (hn.file hf).2.1) (fun _ => inRange_file h hn hf) buf
    size, inRange_ite (fun _ => trivial) fun _ => trivial⟩

theorem inRange_vfsRead (h : FsInv io.disk) (hn : NodeOk io.disk n) (size : UInt32) :
    (vfsRead n size).InRange io := by
  refine inRange_ite (fun _ => trivial) fun hd => ?_
  have hf : n.isDirectory = false := by simpa using hd
  exact inRange_simplefsRead (readable h (hn.file hf).2.1) (fun _ => inRange_file h hn hf) size

theorem inRange_vfsReaddir (h : FsInv io.disk) (hn : NodeOk io.disk n) (index : ℤ) :
    (vfsReaddir n index).InRange io := by
  refine inRange_ite (fun _ => trivial) fun _ => ?_
  rw [inRange_bind]
  refine ⟨inRange_simplefsGetDirentry (readable_node h hn) index, ?_⟩
  split
  · trivial
  · rw [inRange_bind]
    exact ⟨inRange_simplefsGetInode _, trivial⟩

theorem inRange_resolveLoop (h : FsInv io.disk) (path : List UInt8) {cur : VfsNode}
    (hcur : NodeOk io.disk cur) (token : List UInt8) :
    (resolveLoop path cur token).InRange io := by
  induction path generalizing cur token with
  | nil =>
      unfold resolveLoop
      refine inRange_ite (fun _ => trivial) fun _ => inRange_ite (fun _ => trivial) fun _ => ?_
      rw [inRange_bind]
      exact ⟨inRange_vfsLookup h hcur _, trivial⟩
  | cons c rest ih =>
      unfold resolveLoop
      refine inRange_ite (fun _ => ?_) fun _ => ?_
      · refine inRange_ite (fun _ => ih hcur []) fun _ => inRange_ite (fun _ => trivial) fun _ => ?_
        rw [inRange_bind, resolveStep, run_vfsLookup]
        refine ⟨inRange_vfsLookup h hcur _, ?_⟩
        split
        · trivial
        · next next hnext => exact ih (Vfs.vfsLookup_nodeOk h hcur hnext) []
      · exact inRange_ite (fun _ => trivial) fun _ => ih hcur _

theorem inRange_vfsResolvePath (h : FsInv io.disk) {vfsRoot : VfsNode}
    (hr : NodeOk io.disk vfsRoot) (hn : NodeOk io.disk n) (path : CStr) :
    (vfsResolvePath vfsRoot n path).InRange io := by
  unfold vfsResolvePath
  split
  · trivial
  · exact inRange_ite (fun _ => inRange_resolveLoop h _ hr [])
      fun _ => inRange_resolveLoop h _ hn []

end inRange

theorem inRange_call {s : VfsState} (h : s.Ok) (c : VfsCall) :
    (call s.sb s.nodes c).InRange s.io := by
  have hsb : s.sb.dataBlockStart = 17 := by
    rw [h.sb]
    rfl
  cases c with
  | lookup dir name =>
      simp only [call]
      split
      · next n hn =>
          rw [inRange_bind]
          exact ⟨inRange_vfsLookup h.inv (h.node hn) name, trivial⟩
      · trivial
  | readdir dir index =>
      simp only [call]
      split
      · next n hn =>
          rw [inRange_bind]
          exact ⟨inRange_vfsReaddir h.inv (h.node hn) index, trivial⟩
      · trivial
  | resolvePath cwd path =>
      simp only [call]
      split
      · next n vfsRoot hn hr =>
          rw [inRange_bind]
          exact ⟨inRange_vfsResolvePath h.inv (h.node hr) (h.node hn) path, trivial⟩
      · trivial
  | create parent name =>
      simp only [call]
      split
      · next n hn =>
          rw [inRange_bind]
          exact ⟨inRange_vfsCreate h.inv (h.node hn) name, trivial⟩
      · trivial
  | mkdir parent name =>
      simp only [call]
      split
      · next n hn =>
          rw [inRange_bind]
          exact ⟨inRange_vfsMkdir h.inv hsb (h.node hn) name, trivial⟩
      · trivial
  | write file buf size =>
      simp only [call]
      split
      · next n hn =>
          rw [inRange_bind]
          exact ⟨inRange_vfsWrite h.inv hsb (h.node hn) buf size, trivial⟩
      · trivial

end DiskProg

end NosmeriOs.Ata
