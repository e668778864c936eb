import NosmeriOs.VfsErrors

/-! # File sizes

`simplefs_write` bounds the number of blocks, which it computes from `size + 511` in 32 bits,
but stores `size` itself; reads trust the stored size.

* `FilesSound`: every file inode has a size within thirty blocks and owns the blocks below it,
  so that reads stay inside `blocks` and away from sector `0`.
* A write fits when its sum does not wrap (`CallFits`).  `run_files_sound_iff`: a run keeps all
  file inodes sound, and stores what its writes report, exactly when all its writes fit. -/

namespace NosmeriOs.Vfs

open Bytes SimpleFs

/-! ### What file inodes must satisfy -/

/-- The number of bytes `simplefs_read` copies for a request of `n` bytes. -/
def bytesToRead (inode : Inode) (n : UInt32) : UInt32 := if inode.size < n then inode.size else n

/-- Every file inode in use has a size of at most thirty blocks and owns the blocks its size
needs; so reads stay inside `blocks` and away from sector `0`. -/
structure FilesSound (io : Io) : Prop where
  size : ∀ i, IsFile io.disk i → (inodeAt io.disk i).size.toNat ≤ 30 * 512
  block : ∀ i, IsFile io.disk i → ∀ m, 512 * m < (inodeAt io.disk i).size.toNat →
    (inodeAt io.disk i).block m ≠ 0
  read : ∀ i, IsFile io.disk i → ∀ n : UInt32,
    ∀ m < ((bytesToRead (inodeAt io.disk i) n + 511) / 512).toNat,
      m < DIRECT_BLOCKS ∧ (inodeAt io.disk i).block m ≠ 0
  total : ∀ p : UInt32, IsDirectory io.disk p.toNat → ∀ name n, simplefsRead io p name n ≠ none

/-- The part of `FilesSound` that speaks of inodes only. -/
def FileSizes (d : Disk) : Prop :=
  ∀ i, IsFile d i → (inodeAt d i).size.toNat ≤ 30 * 512 ∧
    ∀ m, 512 * m < (inodeAt d i).size.toNat → (inodeAt d i).block m ≠ 0

theorem toNat_bytesToRead (inode : Inode) (n : UInt32) :
    (bytesToRead inode n).toNat = min inode.size.toNat n.toNat := by
  unfold bytesToRead
  split_ifs with h
  · have h' : inode.size.toNat < n.toNat := h
    omega
  · have h' : ¬ inode.size.toNat < n.toNat := h
    omega

theorem readLoop_ne_none (io : Io) (ino : Inode) : ∀ (n i : ℕ) (left : UInt32), i + n ≤ 30 →
    readLoop io ino n i left ≠ none
  | 0, _, _, _ => by simp [readLoop]
  | n + 1, i, left, h => by
      unfold readLoop
      rw [if_neg (by simp only [DIRECT_BLOCKS]; omega)]
      simpa using readLoop_ne_none io ino n (i + 1) _ (by omega)

theorem FileSizes.filesSound {io : Io} (h : FileSizes io.disk) (ht : TreeInv io.disk) :
    FilesSound io := by
  have hcount : ∀ i, IsFile io.disk i → ∀ n : UInt32,
      ((bytesToRead (inodeAt io.disk i) n + 511) / 512).toNat =
        (min (inodeAt io.disk i).size.toNat n.toNat + 511) / 512 := by
    intro i hi n
    have hle := (h i hi).1
    rw [toNat_neededBlocks (by rw [toNat_bytesToRead]; omega), toNat_bytesToRead]
  refine ⟨fun i hi => (h i hi).1, fun i hi => (h i hi).2, ?_, ?_⟩
  · intro i hi n m hm
    rw [hcount i hi n] at hm
    have hle := (h i hi).1
    exact ⟨by simp only [DIRECT_BLOCKS]; omega, (h i hi).2 m (by omega)⟩
  · intro p hp name n
    rw [simplefsRead_eq]
    obtain ⟨hl, -⟩ | ⟨j, hj, hpres, -, hl, -⟩ := simplefsLookup_cases ht hp name
    · simp [hl]
    · obtain ⟨-, hlt, hused⟩ := ht.entry _ hp j hj hpres
      rw [hl, cUInt_cInt]
      split_ifs with h1 h2
      · simp
      · simp
      · have hfile : IsFile io.disk (slot io.disk p.toNat j).inodeIdx.toNat :=
          ⟨hlt, hused, by simpa using h2⟩
        have hc := hcount _ hfile n
        have hle := (h _ hfile).1
        simp only [ne_eq, Option.map_eq_none_iff]
        refine readLoop_ne_none io _ _ 0 _ ?_
        rw [Nat.zero_add]
        refine le_of_eq_of_le hc ?_
        omega

/-- A step that keeps the old file inodes and adds only empty ones. -/
theorem FileSizes.frame {d d' : Disk} (h : FileSizes d)
    (hf : ∀ i, IsFile d' i → (IsFile d i ∧ inodeAt d' i = inodeAt d i) ∨
      inodeAt d' i = Inode.fresh INODE_USED) : FileSizes d' := by
  intro i hi
  obtain ⟨hold, he⟩ | he := hf i hi
  · rw [he]
    exact h i hold
  · rw [he]
    refine ⟨by simp [Inode.fresh], fun m hm => ?_⟩
    simp [Inode.fresh] at hm

theorem isFile_congr {d d' : Disk} {i : ℕ} (h : IsFile d' i) (he : inodeAt d' i = inodeAt d i) :
    IsFile d i := by
  obtain ⟨hlt, hused, hfile⟩ := h
  rw [he] at hused hfile
  exact ⟨hlt, hused, hfile⟩

theorem FileSizes.create {io : Io} (hs : FileSizes io.disk) (h : FsInv io.disk) {p : UInt32}
    (hp : IsDirectory io.disk p.toNat ∨ (inodeAt io.disk p.toNat).isDir = false) (name : CStr) :
    FileSizes (simplefsCreate io p name).2.disk := by
  have htake : ∀ k, FileSizes (io.take k INODE_USED).disk := by
    intro k
    refine hs.frame fun i hi => ?_
    rw [Io.take_disk, inodeAt_putInode]
    by_cases hik : i = k
    · exact Or.inr (if_pos hik)
    · have he : inodeAt (io.take k INODE_USED).disk i = inodeAt io.disk i := by
        rw [Io.take_disk, inodeAt_putInode_ne _ _ hik]
      exact Or.inl ⟨isFile_congr hi he, if_neg hik⟩
  obtain hp | hp := hp
  · obtain ⟨-, he⟩ | ⟨-, -, k, hk, hfree, ⟨-, he⟩ | ⟨j, hj, -, he⟩⟩ :=
      simplefsCreate_cases h hp name
    · rw [he]
      exact hs
    · rw [he]
      exact htake k
    · rw [he, linkWrite_disk]
      have hinv : FsInv (io.take k INODE_USED).disk :=
        (SafeRun.step (.takeInode _ _ hk hfree (by decide))).inv h
      have hdir := ((sameTree_take h hk hfree INODE_USED (by decide)).dirs _).2 hp
      refine (htake k).frame fun i hi => Or.inl ?_
      have hino := inodeAt_linked (j := j) (k := UInt32.ofNat k) (s := name) hinv.blocks hdir hi.lt
      exact ⟨isFile_congr hi hino, hino⟩
  · rw [simplefsCreate_of_not_dir name hp]
    exact hs

theorem FileSizes.mkdir {io : Io} {sb : Superblock} (hs : FileSizes io.disk) (h : FsInv io.disk)
    (hsb : sb.dataBlockStart = 17) {p : UInt32}
    (hp : IsDirectory io.disk p.toNat ∨ (inodeAt io.disk p.toNat).isDir = false) (name : CStr) :
    FileSizes (simplefsMkdir io sb p name).2.disk := by
  obtain hp | hp := hp
  · have hmake : ∀ k < 64, (inodeAt io.disk k).isUsed = false →
        FileSizes (io.makeDir sb k p).disk := by
      intro k hk hfree
      refine hs.frame fun i hi => Or.inl ?_
      have hino := (makeDir_spec h hsb hk hfree hp).inode i hi.lt
      by_cases hik : i = k
      · have hdir := hi.file
        rw [hino, if_pos hik, Inode.isDir_setBlock] at hdir
        exact absurd hdir (by decide)
      · rw [if_neg hik] at hino
        exact ⟨isFile_congr hi hino, hino⟩
    obtain ⟨-, he⟩ | ⟨-, -, k, hk, hfree, ⟨-, he⟩ | ⟨j, hj, -, he⟩⟩ :=
      simplefsMkdir_cases h hsb hp name
    · rw [he]
      exact hs
    · rw [he]
      exact hmake k hk hfree
    · rw [he, linkWrite_disk]
      have hspec := makeDir_spec h hsb hk hfree hp
      refine (hmake k hk hfree).frame fun i hi => Or.inl ?_
      have hino := inodeAt_linked (j := j) (k := UInt32.ofNat k) (s := name)
        (hspec.run.inv h).blocks ((hspec.dirs _).2 (Or.inl hp)) hi.lt
      exact ⟨isFile_congr hi hino, hino⟩
  · rw [simplefsMkdir_of_reject (Or.inr (Or.inl hp))]
    exact hs

/-! ### The calls of the interface -/

theorem vfsCreate_io (io : Io) (n : VfsNode) (name : CStr) :
    (vfsCreate io n name).2.1 = io ∨
      (vfsCreate io n name).2.1 = (simplefsCreate io n.inodeIdx name).2 := by
  unfold vfsCreate
  split_ifs
  · exact Or.inl rfl
  · generalize simplefsCreate io n.inodeIdx name = r
    by_cases h : r.1 < 0
    · exact Or.inr (by simp [h])
    · exact Or.inr (by simp [h])

theorem vfsMkdir_io (io : Io) (sb : Superblock) (n : VfsNode) (name : CStr) :
    (vfsMkdir io sb n name).2.1 = io ∨
      (vfsMkdir io sb n name).2.1 = (simplefsMkdir io sb n.inodeIdx name).2 := by
  unfold vfsMkdir
  split_ifs
  · exact Or.inl rfl
  · generalize simplefsMkdir io sb n.inodeIdx name = r
    by_cases h : r.1 < 0
    · exact Or.inr (by simp [h])
    · exact Or.inr (by simp [h])

/-- A file node is found under its name, as a file. -/
theorem NodeOk.handle {io : Io} (h : FsInv io.disk) {n : VfsNode} (hn : NodeOk io.disk n)
    (hf : n.isDirectory = false) :
    simplefsLookup io n.parentIdx n.name = (n.inodeIdx.toNat : ℤ) ∧
      IsFile io.disk n.inodeIdx.toNat := by
  have hfile := (hn.file hf).1
  exact ⟨(hn.lookup h hf).trans (cInt_of_lt hfile.lt), hfile⟩

theorem vfsWrite_of_file {io : Io} {sb : Superblock} {n : VfsNode} (hf : n.isDirectory = false)
    (buf : ℕ → UInt8) (size : UInt32)
    (hret : (simplefsWrite io sb n.parentIdx n.name buf size).1 = 0) :
    (vfsWrite io sb n buf size).1 = 0 ∧
      (vfsWrite io sb n buf size).2.1 = (simplefsWrite io sb n.parentIdx n.name buf size).2 := by
  unfold vfsWrite
  rw [if_neg (by simp [hf])]
  generalize simplefsWrite io sb n.parentIdx n.name buf size = r at hret
  simp [hret]

/-- A write whose block count exceeds the limit is refused. -/
theorem vfsWrite_of_large {io : Io} {sb : Superblock} {n : VfsNode} (hf : n.isDirectory = false)
    (buf : ℕ → UInt8) {size : UInt32} (hn : 30 < ((size + 511) / 512).toNat) :
    (vfsWrite io sb n buf size).1 = -1 ∧ (vfsWrite io sb n buf size).2.1 = io := by
  have hw : simplefsWrite io sb n.parentIdx n.name buf size = (-1, io) := by
    rw [simplefsWrite_eq]
    split_ifs
    · rfl
    · rfl
  unfold vfsWrite
  rw [if_neg (by simp [hf]), hw]
  simp

theorem toNat_count_of_fits {size : UInt32} (h : size.toNat + 511 < 2 ^ 32) :
    ((size + 511) / 512).toNat = (size.toNat + 511) / 512 := by
  rw [UInt32.toNat_div, UInt32.toNat_add]
  have h1 : (511 : UInt32).toNat = 511 := rfl
  have h2 : (512 : UInt32).toNat = 512 := rfl
  rw [h1, h2, Nat.mod_eq_of_lt h]

theorem toNat_count_of_wraps {size : UInt32} (h : 2 ^ 32 ≤ size.toNat + 511) :
    ((size + 511) / 512).toNat = 0 := by
  have hlt := UInt32.toNat_lt size
  rw [UInt32.toNat_div, UInt32.toNat_add]
  have h1 : (511 : UInt32).toNat = 511 := rfl
  have h2 : (512 : UInt32).toNat = 512 := rfl
  rw [h1, h2]
  omega

/-! ### Runs of fitting writes -/

/-- The sum `size + 511` of a write to a file does not wrap. -/
def CallFits (s : VfsState) : VfsCall → Prop
  | .write file _ size => ∀ n, s.nodes[file]? = some n → n.isDirectory = false →
      size.toNat + 511 < 2 ^ 32
  | _ => True

/-- A write that answers `0` has stored its bytes: reading gives them back. -/
def CallStores (s : VfsState) : VfsCall → Prop
  | .write file buf size => ∀ n, s.nodes[file]? = some n → (vfsWrite s.io s.sb n buf size).1 = 0 →
      vfsRead (vfsWrite s.io s.sb n buf size).2.1 n size =
        some ((size.toNat : ℤ), contentOf buf size)
  | _ => True

/-- All writes of the run fit, each in the state it is issued in. -/
def RunFits : VfsState → List VfsCall → Prop
  | _, [] => True
  | s, c :: cs => CallFits s c ∧ RunFits (s.call c) cs

/-- The file inodes are sound in every state of the run, and its writes store what they
report. -/
def RunSound : VfsState → List VfsCall → Prop
  | s, [] => FilesSound s.io
  | s, c :: cs => FilesSound s.io ∧ CallStores s c ∧ RunSound (s.call c) cs

theorem RunSound.filesSound {s : VfsState} : ∀ {cs : List VfsCall}, RunSound s cs → FilesSound s.io
  | [], h => h
  | _ :: _, h => h.1

theorem call_write_io {s : VfsState} {file : ℕ} {n : VfsNode} (hn : s.nodes[file]? = some n)
    (buf : ℕ → UInt8) (size : UInt32) :
    (s.call (.write file buf size)).io = (vfsWrite s.io s.sb n buf size).2.1 := by
  simp only [VfsState.call, hn]

/-- A fitting write stores its bytes and keeps the file inodes sound. -/
theorem vfsWrite_fits {s : VfsState} (h : s.Ok) (hs : FileSizes s.io.disk) {n : VfsNode}
    (hn : NodeOk s.io.disk n) (hf : n.isDirectory = false) (buf : ℕ → UInt8) {size : UInt32}
    (hfit : size.toNat + 511 < 2 ^ 32) :
    FileSizes (vfsWrite s.io s.sb n buf size).2.1.disk ∧
    ((vfsWrite s.io s.sb n buf size).1 = 0 → vfsRead (vfsWrite s.io s.sb n buf size).2.1 n size =
      some ((size.toNat : ℤ), contentOf buf size)) := by
  have hsb : s.sb.dataBlockStart = 17 := by
    rw [h.sb]
    rfl
  obtain ⟨hlook, hfile⟩ := hn.handle h.inv hf
  have hcount := toNat_count_of_fits hfit
  by_cases hbig : 30 < ((size + 511) / 512).toNat
  · obtain ⟨hret, hio⟩ := @vfsWrite_of_large s.io s.sb n hf buf size hbig
    rw [hret, hio]
    refine ⟨hs, fun h0 => ?_⟩
    omega
  · have hle : size.toNat ≤ 30 * 512 := by omega
    obtain ⟨hret, ⟨hfile', hholds⟩, -⟩ := simplefsWrite_file h.inv hsb hlook hfile buf hle
    have hn30 : ((size + 511) / 512).toNat ≤ 30 := by omega
    have hothers := (simplefsWrite_done h.inv hsb hlook hfile buf hn30).2.others
    obtain ⟨hret', hio⟩ := vfsWrite_of_file hf buf size hret
    obtain ⟨hrun, -⟩ := vfsWrite_spec h.inv hsb hn buf size
    have hlook' := ((hn.grows (hrun.grows h.inv)).handle (hrun.inv h.inv) hf).1
    rw [hio] at hlook' ⊢
    constructor
    · intro i hi
      by_cases hik : i = n.inodeIdx.toNat
      · subst hik
        rw [hholds.size]
        exact ⟨hholds.le, hholds.block⟩
      · have he := hothers i hi.lt hik
        rw [he]
        exact hs i (isFile_congr hi he)
    · intro _
      unfold vfsRead
      rw [if_neg (by simp [hf]), simplefsRead_file hlook' hfile' hholds, length_contentOf,
        Nat.min_self]
      have htake : (contentOf buf size).take size.toNat = contentOf buf size :=
        List.take_of_length_le (by rw [length_contentOf])
      rw [htake]

/-- The step: a call that fits keeps the file inodes sound. -/
theorem call_fits {s : VfsState} (h : s.Ok) (hs : FileSizes s.io.disk) {c : VfsCall}
    (hc : CallFits s c) : FileSizes (s.call c).io.disk ∧ CallStores s c := by
  have hsb : s.sb.dataBlockStart = 17 := by
    rw [h.sb]
    rfl
  cases c with
  | lookup dir name =>
      refine ⟨?_, trivial⟩
      simp only [VfsState.call]
      cases s.nodes[dir]? <;> exact hs
  | readdir dir index =>
      refine ⟨?_, trivial⟩
      simp only [VfsState.call]
      cases s.nodes[dir]? <;> exact hs
  | resolvePath cwd path =>
      refine ⟨?_, trivial⟩
      simp only [VfsState.call]
      cases s.nodes[cwd]? <;> cases s.nodes[0]? <;> exact hs
  | create parent name =>
      refine ⟨?_, trivial⟩
      cases hn : s.nodes[parent]? with
      | none =>
          simp only [VfsState.call, hn]
          exact hs
      | some n =>
          have hio : (s.call (.create parent name)).io = (vfsCreate s.io n name).2.1 := by
            simp only [VfsState.call, hn, VfsState.note]
          rw [hio]
          obtain he | he := vfsCreate_io s.io n name
          · rw [he]
            exact hs
          · rw [he]
            exact hs.create h.inv (h.node hn).parent name
  | mkdir parent name =>
      refine ⟨?_, trivial⟩
      cases hn : s.nodes[parent]? with
      | none =>
          simp only [VfsState.call, hn]
          exact hs
      | some n =>
          have hio : (s.call (.mkdir parent name)).io = (vfsMkdir s.io s.sb n name).2.1 := by
            simp only [VfsState.call, hn, VfsState.note]
          rw [hio]
          obtain he | he := vfsMkdir_io s.io s.sb n name
          · rw [he]
            exact hs
          · rw [he]
            exact hs.mkdir h.inv hsb (h.node hn).parent name
  | write file buf size =>
      cases hn : s.nodes[file]? with
      | none =>
          refine ⟨?_, fun n hn' => by rw [hn] at hn'; cases hn'⟩
          simp only [VfsState.call, hn]
          exact hs
      | some n =>
          rw [call_write_io hn]
          by_cases hf : n.isDirectory = true
          · have hw : vfsWrite s.io s.sb n buf size = (-1, s.io, n) := by
              unfold vfsWrite
              rw [if_pos hf]
            refine ⟨by rw [hw]; exact hs, fun m hm h0 => ?_⟩
            rw [hn] at hm
            cases hm
            rw [hw] at h0
            cases h0
          · have hf' : n.isDirectory = false := by simpa using hf
            obtain ⟨hsize, hstore⟩ := vfsWrite_fits h hs (h.node hn) hf' buf (hc n hn hf')
            refine ⟨hsize, fun m hm => ?_⟩
            rw [hn] at hm
            cases hm
            exact hstore

/-- A write whose sum wraps stores no block but a size beyond the limit. -/
theorem not_filesSound_of_wraps {s : VfsState} (h : s.Ok) {file : ℕ} {n : VfsNode}
    (hn : s.nodes[file]? = some n) (hf : n.isDirectory = false) (buf : ℕ → UInt8) {size : UInt32}
    (hwrap : 2 ^ 32 ≤ size.toNat + 511) : ¬ FilesSound (s.call (.write file buf size)).io := by
  have hsb : s.sb.dataBlockStart = 17 := by
    rw [h.sb]
    rfl
  intro hsound
  obtain ⟨hlook, hfile⟩ := (h.node hn).handle h.inv hf
  have hcount := toNat_count_of_wraps hwrap
  have hn30 : ((size + 511) / 512).toNat ≤ 30 := by omega
  obtain ⟨hret, hdone⟩ := simplefsWrite_done h.inv hsb hlook hfile buf hn30
  have hfile' := IsFile.grows ((h.call (.write file buf size)).2.grows h.inv) hfile
  have hle := hsound.size _ hfile'
  rw [call_write_io hn, (vfsWrite_of_file hf buf size hret).2, hdone.size] at hle
  omega

theorem fileSizes_init {d : Disk} (hd : needsFormat d = true) :
    FileSizes (VfsState.init d).io.disk := by
  have hio : (VfsState.init d).io = formatDisk ⟨d, []⟩ := by
    simp [VfsState.init, vfsInit, simplefsInit, hd]
  rw [hio]
  intro i hi
  have h0 := isUsed_formatDisk ⟨d, []⟩ hi.lt hi.used
  have hdir := hi.file
  rw [h0, inodeAt_formatDisk _ (by omega), if_pos rfl] at hdir
  exact absurd hdir (by decide)

theorem runSound_iff {cs : List VfsCall} : ∀ {s : VfsState}, s.Ok → FileSizes s.io.disk →
    (RunSound s cs ↔ RunFits s cs) := by
  induction cs with
  | nil =>
      intro s h hs
      exact ⟨fun _ => trivial, fun _ => hs.filesSound h.inv.tree⟩
  | cons c cs ih =>
      intro s h hs
      constructor
      · rintro ⟨-, -, hrest⟩
        have hfit : CallFits s c := by
          cases c with
          | write file buf size =>
              intro n hn hf
              by_contra hwrap
              exact not_filesSound_of_wraps h hn hf buf (by omega) hrest.filesSound
          | _ => trivial
        exact ⟨hfit, (ih (h.call c).1 (call_fits h hs hfit).1).1 hrest⟩
      · rintro ⟨hfit, hrest⟩
        obtain ⟨hs', hstore⟩ := call_fits h hs hfit
        exact ⟨hs.filesSound h.inv.tree, hstore, (ih (h.call c).1 hs').2 hrest⟩

/-- **File sizes.**  From a fresh disk, a run keeps every file inode sound and its writes store
what they report exactly when no write to a file wraps the 32-bit sum `size + 511`. -/
theorem run_files_sound_iff (d : Disk) (hd : needsFormat d = true) (cs : List VfsCall) :
    RunSound (VfsState.init d) cs ↔ RunFits (VfsState.init d) cs :=
  runSound_iff (VfsState.Ok.init hd) (fileSizes_init hd)

theorem run_files_sound_iff_blank : needsFormat blankDisk = true ∧
    (RunSound (VfsState.init blankDisk) [.create 0 (fileName 0), .write 1 (fun _ => 7) 600] ↔
      RunFits (VfsState.init blankDisk) [.create 0 (fileName 0), .write 1 (fun _ => 7) 600]) :=
  ⟨by decide, run_files_sound_iff blankDisk (by decide) _⟩

/-! ### A wrapping write -/

theorem vfsLookup_of_slot {io : Io} (h : FsInv io.disk) {r : VfsNode} (hr : r.isDirectory = true)
    (hd : IsDirectory io.disk r.inodeIdx.toNat) {j : ℕ} (hj : j < 16) {name : CStr}
    (hp : (slot io.disk r.inodeIdx.toNat j).isPresent = true)
    (hn : (slot io.disk r.inodeIdx.toNat j).HasName name) (hne : name ≠ dot) :
    vfsLookup io r name = some (nodeOf name (slot io.disk r.inodeIdx.toNat j).inodeIdx r.inodeIdx
      (inodeAt io.disk (slot io.disk r.inodeIdx.toNat j).inodeIdx.toNat)) := by
  have hdot : ¬ CStr.strcmp name.byteAt dot = 0 := by
    rw [CStr.strcmp_eq_zero_iff]
    intro hd
    exact hne (CStr.Holds.unique (fun _ _ => rfl) hd)
  have hlt := (h.tree.entry _ hd j hj hp).2.1
  have hl := simplefsLookup_of_hasName h.tree hd hj hp hn
  have hnonneg : ¬ cInt (slot io.disk r.inodeIdx.toNat j).inodeIdx < 0 := by
    rw [cInt_of_lt hlt]
    omega
  unfold vfsLookup
  rw [if_neg (by simp [hr]), if_neg hdot, hl]
  simp only [hnonneg, if_false, cUInt_cInt, simplefsGetInode]
  rw [if_neg (by simp only [INODE_COUNT]; omega), readInode_eq]
  rfl

theorem isDirectory_of_flags {n : VfsNode} (h : n.flags = VFS_FILE) : n.isDirectory = false := by
  rw [VfsNode.isDirectory, h]
  decide

/-- A fresh disk with one file `a`: inode 1, in entry 2 of the root directory. -/
structure FirstFile (d : Disk) : Prop where
  present : (slot d 0 2).isPresent = true
  name : (slot d 0 2).HasName (fileName 0)
  idx : (slot d 0 2).inodeIdx = 1
  file : IsFile d 1

/-- The first file created on a fresh disk, and the node its creation returns. -/
theorem first_file {d : Disk} (hd : needsFormat d = true) :
    FirstFile ((VfsState.init d).call (.create 0 (fileName 0))).io.disk ∧
    ((VfsState.init d).call (.create 0 (fileName 0))).nodes[1]? = some (nodeOf (fileName 0) 1 0
      (inodeAt ((VfsState.init d).call (.create 0 (fileName 0))).io.disk 1)) := by
  have h := filled_init hd
  have hcreate := h.simplefsCreate (by omega)
  have hmade : Filled ((VfsState.init d).call (.create 0 (fileName 0))) 1 := h.create (by omega)
  obtain ⟨r, hr, hrdir, hr0⟩ := h.root
  have hlen : (VfsState.init d).nodes.length = 1 := rfl
  have hfree : (inodeAt (VfsState.init d).io.disk 1).isUsed = false := by
    rw [h.used 1 (by omega)]
    decide
  have hinv : FsInv ((VfsState.init d).io.take 1 INODE_USED).disk :=
    (SafeRun.step (.takeInode _ _ (by omega) hfree (by decide))).inv h.ok.inv
  have hs := sameTree_take h.ok.inv (by omega) hfree INODE_USED (by decide)
  have hroot := (hs.dirs 0).2 h.ok.inv.tree.root
  have hio : ((VfsState.init d).call (.create 0 (fileName 0))).io =
      (simplefsCreate (VfsState.init d).io 0 (fileName 0)).2 := (h.event_io (by omega)).1
  have hnodes : ((VfsState.init d).call (.create 0 (fileName 0))).nodes = (VfsState.init d).nodes ++
      (vfsLookup ((VfsState.init d).call (.create 0 (fileName 0))).io r (fileName 0)).toList := by
    rw [hio]
    simp only [VfsState.call, hr, VfsState.note, vfsCreate, h.vfsLookup (by omega) hr0, hr0,
      hcreate]
    simp
  have hdisk : ((VfsState.init d).call (.create 0 (fileName 0))).io.disk =
      linked ((VfsState.init d).io.take 1 INODE_USED).disk 0 2 (UInt32.ofNat 1) (fileName 0) := by
    rw [hio, hcreate]
    rfl
  have hslot : (slot ((VfsState.init d).call (.create 0 (fileName 0))).io.disk 0 2).inodeIdx = 1 := by
    rw [hdisk, slot_linked hinv.blocks hroot (by omega) hroot]
    rfl
  have hfile : (inodeAt ((VfsState.init d).call (.create 0 (fileName 0))).io.disk 1).isDir = false := by
    rw [hdisk, inodeAt_linked hinv.blocks hroot (by omega), Io.take_disk, inodeAt_putInode_same]
    decide
  have hr0' : r.inodeIdx.toNat = 0 := by
    rw [hr0]
    rfl
  have hlook := @vfsLookup_of_slot _ hmade.ok.inv r hrdir (by rw [hr0']; exact hmade.ok.inv.tree.root)
    2 (by omega) (fileName 0) (by rw [hr0', hmade.present 2 (by omega)]; decide)
    (by rw [hr0']; exact hmade.named 0 (by omega)) (fileName_ne_dot 0).1
  have hused : (inodeAt ((VfsState.init d).call (.create 0 (fileName 0))).io.disk 1).isUsed = true := by
    rw [hmade.used 1 (by omega)]
    decide
  have hpresent : (slot ((VfsState.init d).call (.create 0 (fileName 0))).io.disk 0 2).isPresent =
      true := by
    rw [hmade.present 2 (by omega)]
    decide
  refine ⟨⟨hpresent, hmade.named 0 (by omega), hslot, by omega, hused, hfile⟩, ?_⟩
  rw [hnodes, hlook, hr0', hslot, hr0]
  exact List.getElem?_append_right (by rw [hlen])

theorem first_file_node {d : Disk} (hd : needsFormat d = true) : ∃ n,
    ((VfsState.init d).call (.create 0 (fileName 0))).nodes[1]? = some n ∧
      n.flags = VFS_FILE := by
  obtain ⟨hfirst, hn⟩ := first_file hd
  exact ⟨_, hn, if_neg (by simp [hfirst.file.file])⟩

/-- One create and one write of `2³² - 1` bytes: the write answers `0`, stores nothing and
leaves a file with that size and no block. -/
theorem wrapping_write_unsound : needsFormat blankDisk = true ∧
    ¬ RunSound (VfsState.init blankDisk)
      [.create 0 (fileName 0), .write 1 (fun _ => 7) 0xFFFFFFFF] := by
  have hd : needsFormat blankDisk = true := by decide
  refine ⟨hd, ?_⟩
  rintro ⟨-, -, -, -, hsound⟩
  obtain ⟨n, hn, hf⟩ := first_file_node hd
  exact not_filesSound_of_wraps ((VfsState.Ok.init hd).call _).1 hn (isDirectory_of_flags hf) _
    (by decide) hsound

end NosmeriOs.Vfs
