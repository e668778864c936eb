import NosmeriOs.SimpleFsAlloc
import NosmeriOs.VfsRun

/-! # Failed creations and interrupted formats

Two error paths of the file system that do not leave the disk as they should.

* **Failed creation.**  `simplefs_create` and `simplefs_mkdir` take an inode (and a table
  block) before they look for an empty slot in the parent's table.  `run_failed_creation_iff`:
  a failed call leaves the disk alone unless exactly that search is what fails (`FullTable`).
* **Interrupted format.**  `simplefs_init` writes the superblock first, and the superblock
  alone decides whether the next mount formats again.  `interrupted_format_iff` says for each
  number of completed sector writes when the next mount still ends in a fresh file system. -/

namespace NosmeriOs.Vfs

open Bytes SimpleFs

/-! ### Files in the root directory -/

/-- The names `"a"`, `"b"`, … -/
def fileName (i : ℕ) : CStr := ⟨[UInt8.ofNat (97 + i % 26)], by
  simp only [List.mem_singleton]
  intro h
  have h' := congrArg UInt8.toNat h
  simp only [UInt8.toNat_ofNat'] at h'
  have : (0 : UInt8).toNat = 0 := rfl
  omega⟩

theorem fileName_inj {i j : ℕ} (hi : i < 26) (hj : j < 26) (h : fileName i = fileName j) :
    i = j := by
  have hb : UInt8.ofNat (97 + i % 26) = UInt8.ofNat (97 + j % 26) :=
    List.singleton_injective (congrArg CStr.bytes h)
  have hn := congrArg UInt8.toNat hb
  simp only [UInt8.toNat_ofNat'] at hn
  omega

theorem fileName_ne_dot (i : ℕ) : fileName i ≠ dot ∧ fileName i ≠ dotdot := by
  constructor
  · intro h
    have hb : UInt8.ofNat (97 + i % 26) = 46 := List.singleton_injective (congrArg CStr.bytes h)
    have hn := congrArg UInt8.toNat hb
    simp only [UInt8.toNat_ofNat'] at hn
    have : (46 : UInt8).toNat = 46 := rfl
    omega
  · intro h
    have hl := congrArg (fun s : CStr => s.bytes.length) h
    simp [fileName, dotdot] at hl

/-- The state after the root got the files `"a"`, `"b"`, …, `n` of them, in order. -/
structure Filled (s : VfsState) (n : ℕ) : Prop where
  ok : s.Ok
  root : ∃ r, s.nodes[0]? = some r ∧ r.isDirectory = true ∧ r.inodeIdx = 0
  used : ∀ k < 64, (inodeAt s.io.disk k).isUsed = decide (k ≤ n)
  present : ∀ j < 16, (slot s.io.disk 0 j).isPresent = decide (j < n + 2)
  named : ∀ i < n, (slot s.io.disk 0 (i + 2)).HasName (fileName i)

theorem filled_init {d : Disk} (hd : needsFormat d = true) : Filled (VfsState.init d) 0 := by
  have hio : (VfsState.init d).io = formatDisk ⟨d, []⟩ := by
    simp [VfsState.init, vfsInit, simplefsInit, hd]
  refine ⟨VfsState.Ok.init hd, ⟨_, rfl, ?_, rfl⟩, ?_, ?_, ?_⟩
  · change (VFS_DIRECTORY &&& VFS_DIRECTORY != 0) = true
    decide
  · intro k hk
    rw [hio, inodeAt_formatDisk _ hk]
    by_cases h0 : k = 0
    · subst h0
      decide
    · rw [if_neg h0]
      simp only [Nat.le_zero, h0, decide_false]
      decide
  · intro j hj
    rw [hio, slot_formatDisk]
    by_cases hj2 : 2 ≤ j
    · rw [isPresent_newTable _ _ hj2]
      simp only [Nat.zero_add, Bool.false_eq, decide_eq_false_iff_not]
      omega
    · obtain rfl | rfl : j = 0 ∨ j = 1 := by omega
      · rw [getEntry_newTable_zero]
        decide
      · rw [getEntry_newTable_one]
        decide
  · intro i hi
    omega

namespace Filled

variable {s : VfsState} {n : ℕ}

theorem isDirectory (h : Filled s n) : IsDirectory s.io.disk (0 : UInt32).toNat := h.ok.inv.tree.root

theorem absent (h : Filled s n) (hn : n ≤ 14) : Absent s.io.disk 0 (fileName n) := by
  intro j hj hp hname
  rw [h.present j hj, decide_eq_true_eq] at hp
  by_cases hj2 : 2 ≤ j
  · have hold := h.named (j - 2) (by omega)
    rw [Nat.sub_add_cancel hj2] at hold
    have := fileName_inj (by omega) (by omega) (hold.unique hname)
    omega
  · obtain rfl | rfl : j = 0 ∨ j = 1 := by omega
    · exact (fileName_ne_dot n).1 (hname.unique (h.ok.inv.tree.dot 0 h.ok.inv.tree.root).1)
    · exact (fileName_ne_dot n).2 (hname.unique (h.ok.inv.tree.dotdot 0 h.ok.inv.tree.root).1)

theorem firstFree (h : Filled s n) (hn : n ≤ 14) : firstFree s.io.disk = some (n + 1) := by
  rw [firstFree_eq_some_iff, h.used (n + 1) (by omega)]
  refine ⟨by omega, by simp, fun i hi => ?_⟩
  rw [h.used i (by omega)]
  exact decide_eq_true (by omega)

theorem nameOk (n : ℕ) : NameOk (fileName n) := by
  simp [NameOk, fileName, CStr.strlen]

theorem firstEmpty (h : Filled s n) (hn : n < 14) : firstEmpty s.io.disk 0 = some (n + 2) := by
  rw [firstEmpty_eq_some_iff, h.present (n + 2) (by omega)]
  refine ⟨by omega, by simp, fun j hj => ?_⟩
  rw [h.present j (by omega)]
  exact decide_eq_true hj

/-- The device after the next file has been created. -/
theorem simplefsCreate (h : Filled s n) (hn : n < 14) : simplefsCreate s.io 0 (fileName n) =
    (0, (s.io.take (n + 1) INODE_USED).write (linkWrite (s.io.take (n + 1) INODE_USED).disk 0
      (n + 2) (UInt32.ofNat (n + 1)) (fileName n))) :=
  simplefsCreate_eq_link h.ok.inv h.isDirectory (nameOk n) (h.absent (by omega))
    (h.firstFree (by omega)) (h.firstEmpty hn)

/-- A name that is there already is refused. -/
theorem simplefsCreate_again (h : Filled s n) (hn : n ≤ 14) {i : ℕ} (hi : i < n) :
    (SimpleFs.simplefsCreate s.io 0 (fileName i)).1 = -1 := by
  obtain ⟨-, he⟩ | ⟨-, habs, -⟩ := simplefsCreate_cases h.ok.inv h.isDirectory (fileName i)
  · rw [he]
  · have hp : (slot s.io.disk 0 (i + 2)).isPresent = true :=
      (h.present (i + 2) (by omega)).trans (decide_eq_true (by omega))
    exact absurd (h.named i hi) (habs (i + 2) (by omega) hp)

theorem vfsLookup (h : Filled s n) (hn : n ≤ 14) {r : VfsNode} (hr : r.inodeIdx = 0) :
    vfsLookup s.io r (fileName n) = none := by
  have h0 : r.inodeIdx.toNat = 0 := by
    rw [hr]
    rfl
  apply vfsLookup_of_absent h.ok.inv.tree
  · rw [h0]
    exact h.ok.inv.tree.root
  · rw [h0]
    exact h.absent hn
  · exact (fileName_ne_dot n).1

theorem event_io (h : Filled s n) (hn : n < 14) :
    (s.event (.done (.create 0 (fileName n)))).io =
      (SimpleFs.simplefsCreate s.io 0 (fileName n)).2 ∧
    ∃ ns, (s.event (.done (.create 0 (fileName n)))).nodes = s.nodes ++ ns := by
  obtain ⟨r, hr, -, hr0⟩ := h.root
  simp only [VfsState.event, VfsState.call, hr, VfsState.note, vfsCreate,
    h.vfsLookup (by omega) hr0, hr0, h.simplefsCreate hn]
  simp

theorem create (h : Filled s n) (hn : n < 14) :
    Filled (s.event (.done (.create 0 (fileName n)))) (n + 1) := by
  obtain ⟨hio, ns, hns⟩ := h.event_io hn
  have hfree : (inodeAt s.io.disk (n + 1)).isUsed = false := by
    rw [h.used _ (by omega)]
    simp
  have hs := sameTree_take h.ok.inv (by omega) hfree INODE_USED (by decide)
  have htake : FsInv (s.io.take (n + 1) INODE_USED).disk :=
    (SafeRun.step (.takeInode _ _ (by omega) hfree (by decide))).inv h.ok.inv
  have hroot := (hs.dirs 0).2 h.ok.inv.tree.root
  have hdisk : (s.event (.done (.create 0 (fileName n)))).io.disk =
      linked (s.io.take (n + 1) INODE_USED).disk 0 (n + 2) (UInt32.ofNat (n + 1)) (fileName n) := by
    rw [hio, h.simplefsCreate hn]
    rfl
  have hslot : ∀ j, slot (s.event (.done (.create 0 (fileName n)))).io.disk 0 j =
      if j = n + 2 then mkEntry (slot s.io.disk 0 (n + 2)).filename (UInt32.ofNat (n + 1))
        (fileName n) else slot s.io.disk 0 j := by
    intro j
    rw [hdisk, slot_linked htake.blocks hroot (by omega) hroot, hs.slots 0 h.ok.inv.tree.root,
      hs.slots 0 h.ok.inv.tree.root]
    simp
  refine ⟨h.ok.event _, ?_, ?_, ?_, ?_⟩
  · obtain ⟨r, hr, hrd⟩ := h.root
    refine ⟨r, ?_, hrd⟩
    rw [hns, List.getElem?_append_left (List.getElem?_eq_some_iff.1 hr).1]
    exact hr
  · intro k hk
    rw [hdisk, inodeAt_linked htake.blocks hroot hk, Io.take_disk, inodeAt_putInode]
    by_cases hkn : k = n + 1
    · rw [if_pos hkn, hkn]
      simp only [le_refl, decide_true]
      decide
    · rw [if_neg hkn, h.used k hk, decide_eq_decide]
      omega
  · intro j hj
    rw [hslot]
    by_cases hjn : j = n + 2
    · rw [if_pos hjn, (hasName_mkEntry _ _ (nameOk n).1).isPresent_iff.2 (nameOk n).2, hjn]
      simp
    · rw [if_neg hjn, h.present j hj, decide_eq_decide]
      omega
  · intro i hi
    rw [hslot]
    by_cases hin : i = n
    · rw [if_pos (by omega), hin]
      exact hasName_mkEntry _ _ (nameOk n).1
    · rw [if_neg (by omega)]
      exact h.named i (by omega)

theorem run (h : Filled s 0) : ∀ n ≤ 14,
    Filled (s.run ((List.range n).map fun i => .done (.create 0 (fileName i)))) n
  | 0, _ => h
  | n + 1, hn => by
      have hrun : s.run ((List.range (n + 1)).map fun i => .done (.create 0 (fileName i))) =
          (s.run ((List.range n).map fun i => .done (.create 0 (fileName i)))).event
            (.done (.create 0 (fileName n))) := by
        simp [VfsState.run, List.range_succ]
      rw [hrun]
      exact (run h n (by omega)).create (by omega)

end Filled

/-! ### Failed creation -/

/-- If the call answers `-1`, every sector is as before. -/
def FailsUnchanged (io : Io) (r : ℤ × Io) : Prop := r.1 = -1 → r.2.disk = io.disk

/-- Everything a creation checks first is in order, but the parent's table is full. -/
def FullTable (io : Io) (p : UInt32) (name : CStr) : Prop :=
  (1 ≤ name.strlen ∧ name.strlen ≤ 27) ∧ Absent io.disk p.toNat name ∧
    (∃ k < INODE_COUNT, (inodeAt io.disk k).isUsed = false) ∧
    ∀ j < ENTRIES_PER_BLOCK, (slot io.disk p.toNat j).isPresent = true

/-- The case distinction of the creating calls, with `failed k` the device when the table
turns out to be full after inode `k` has been taken. -/
theorem failsUnchanged_iff {io : Io} {p : UInt32} {name : CStr} {r : ℤ × Io}
    {failed : ℕ → Io} {linked : ℕ → ℕ → Io}
    (hne : ∀ k < 64, (inodeAt io.disk k).isUsed = false → (failed k).disk ≠ io.disk)
    (h : (¬ (NameOk name ∧ Absent io.disk p.toNat name ∧
        ∃ k < 64, (inodeAt io.disk k).isUsed = false) ∧ r = (-1, io)) ∨
      (NameOk name ∧ Absent io.disk p.toNat name ∧ ∃ k < 64, (inodeAt io.disk k).isUsed = false ∧
        (((∀ j < 16, (slot io.disk p.toNat j).isPresent = true) ∧ r = (-1, failed k)) ∨
        ∃ j < 16, (slot io.disk p.toNat j).isPresent = false ∧ r = (0, linked k j)))) :
    FailsUnchanged io r ↔ ¬ FullTable io p name := by
  rcases h with ⟨hnot, rfl⟩ | ⟨hname, habs, k, hk, hfree, hcase⟩
  · refine ⟨fun _ hfull => hnot ?_, fun _ _ => rfl⟩
    exact ⟨(nameOk_iff name).2 hfull.1, hfull.2.1, hfull.2.2.1⟩
  · rcases hcase with ⟨hfull, rfl⟩ | ⟨j, hj, hempty, rfl⟩
    · constructor
      · intro hun
        exact absurd (hun rfl) (hne k hk hfree)
      · intro hnot
        exact absurd ⟨(nameOk_iff name).1 hname, habs, ⟨k, hk, hfree⟩, hfull⟩ hnot
    · constructor
      · intro _ hfull
        rw [hfull.2.2.2 j hj] at hempty
        cases hempty
      · intro _ hr
        cases hr

theorem ne_of_isUsed {d d' : Disk} {k : ℕ} (hfree : (inodeAt d k).isUsed = false)
    (hused : (inodeAt d' k).isUsed = true) : d' ≠ d := by
  rintro rfl
  rw [hfree] at hused
  cases hused

theorem isUsed_take (io : Io) (k : ℕ) : (inodeAt (io.take k INODE_USED).disk k).isUsed = true := by
  rw [Io.take_disk, inodeAt_putInode_same]
  decide

theorem simplefsCreate_failsUnchanged_iff {io : Io} (h : FsInv io.disk) {p : UInt32}
    (hp : IsDirectory io.disk p.toNat) (name : CStr) :
    FailsUnchanged io (simplefsCreate io p name) ↔ ¬ FullTable io p name := by
  refine failsUnchanged_iff ?_ (simplefsCreate_cases h hp name)
  intro k _ hfree
  exact ne_of_isUsed hfree (isUsed_take io k)

theorem simplefsMkdir_failsUnchanged_iff {io : Io} {sb : Superblock} (h : FsInv io.disk)
    (hsb : sb.dataBlockStart = 17) {p : UInt32} (hp : IsDirectory io.disk p.toNat) (name : CStr) :
    FailsUnchanged io (simplefsMkdir io sb p name) ↔ ¬ FullTable io p name := by
  refine failsUnchanged_iff ?_ (simplefsMkdir_cases h hsb hp name)
  intro k hk hfree
  refine ne_of_isUsed hfree ?_
  rw [(makeDir_spec h hsb hk hfree hp).inode k hk, if_pos rfl, Inode.isUsed_setBlock]
  decide

/-- **Failed creation.**  In every state a run reaches and for every directory, a creating
call that fails leaves the disk unchanged, except when what fails is the search for an empty
slot: then the inode (and for `mkdir` the table block) stays taken. -/
theorem run_failed_creation_iff (d : Disk) (hd : needsFormat d = true) (es : List VfsEvent)
    (p : UInt32) (hp : IsDirectory ((VfsState.init d).run es).io.disk p.toNat) (name : CStr) :
    (FailsUnchanged ((VfsState.init d).run es).io
        (simplefsCreate ((VfsState.init d).run es).io p name) ↔
      ¬ FullTable ((VfsState.init d).run es).io p name) ∧
    (FailsUnchanged ((VfsState.init d).run es).io
        (simplefsMkdir ((VfsState.init d).run es).io ((VfsState.init d).run es).sb p name) ↔
      ¬ FullTable ((VfsState.init d).run es).io p name) := by
  have hok := (VfsState.Ok.init hd).run es
  have hsb : ((VfsState.init d).run es).sb.dataBlockStart = 17 := by
    rw [hok.sb]
    rfl
  exact ⟨simplefsCreate_failsUnchanged_iff hok.inv hp name,
    simplefsMkdir_failsUnchanged_iff hok.inv hsb hp name⟩

/-- The file `a` a second time in the root directory: the call fails. -/
theorem run_failed_creation_iff_twice : needsFormat blankDisk = true ∧
    IsDirectory ((VfsState.init blankDisk).run [.done (.create 0 (fileName 0))]).io.disk 0 ∧
    (simplefsCreate ((VfsState.init blankDisk).run [.done (.create 0 (fileName 0))]).io 0
      (fileName 0)).1 = -1 ∧
    (FailsUnchanged ((VfsState.init blankDisk).run [.done (.create 0 (fileName 0))]).io
        (simplefsCreate ((VfsState.init blankDisk).run [.done (.create 0 (fileName 0))]).io 0
          (fileName 0)) ↔
      ¬ FullTable ((VfsState.init blankDisk).run [.done (.create 0 (fileName 0))]).io 0
        (fileName 0)) := by
  have hd : needsFormat blankDisk = true := by decide
  have h := (filled_init hd).run 1 (by omega)
  exact ⟨hd, h.isDirectory, h.simplefsCreate_again (by omega) (by omega),
    (run_failed_creation_iff blankDisk hd _ 0 h.isDirectory (fileName 0)).1⟩

/-- The fifteenth file in the root directory of a fresh disk: the call answers `-1`, and the
inode it took stays in use. -/
theorem fifteenth_file_leaks : needsFormat blankDisk = true ∧
    IsDirectory ((VfsState.init blankDisk).run
      ((List.range 14).map fun i => .done (.create 0 (fileName i)))).io.disk 0 ∧
    ¬ FailsUnchanged ((VfsState.init blankDisk).run
        ((List.range 14).map fun i => .done (.create 0 (fileName i)))).io
      (simplefsCreate ((VfsState.init blankDisk).run
        ((List.range 14).map fun i => .done (.create 0 (fileName i)))).io 0 (fileName 14)) := by
  have hd : needsFormat blankDisk = true := by decide
  have h := (filled_init hd).run 14 le_rfl
  refine ⟨hd, h.isDirectory, ?_⟩
  rw [simplefsCreate_failsUnchanged_iff h.ok.inv h.isDirectory, not_not]
  refine ⟨(nameOk_iff _).1 (Filled.nameOk 14), h.absent le_rfl, ⟨15, by decide, ?_⟩, ?_⟩
  · rw [h.used 15 (by omega)]
    decide
  · intro j hj
    exact (h.present j hj).trans (decide_eq_true hj)

/-! ### Interrupted format -/

/-- The first writes of a format: the superblock and the first `m` sectors of the inode
table, cleared. -/
def clearWrites (m : ℕ) : List SectorWrite :=
  ⟨.superblock, SUPERBLOCK_SECTOR, Buf.zero.blit 0 16 formatSuperblock.byteAt⟩ ::
    (List.range' INODE_START_SECTOR m).map fun sec => ⟨.inodeTable, sec, Buf.zero⟩

/-- The write of the root inode. -/
def rootInodeWrite : SectorWrite :=
  ⟨.inodeTable, INODE_START_SECTOR, setInode Buf.zero 0 rootInode⟩

/-- The write of the root table. -/
def rootTableWrite : SectorWrite :=
  ⟨.dirTable, formatSuperblock.dataBlockStart.toNat, newTable 0 0⟩

/-- The sector writes of a format, in order. -/
def formatWrites : List SectorWrite :=
  clearWrites INODE_SECTORS ++ [rootInodeWrite] ++ [rootTableWrite]

theorem length_clearWrites (m : ℕ) : (clearWrites m).length = m + 1 := by
  simp [clearWrites]

theorem length_formatWrites : formatWrites.length = 19 := by
  simp [formatWrites, length_clearWrites, INODE_SECTORS, INODE_COUNT, INODES_PER_SECTOR]

theorem replay_singleton (io : Io) (w : SectorWrite) : io.replay [w] = io.write w := rfl

theorem write_disk_of_ne (io : Io) (w : SectorWrite) {b : ℕ} (h : b ≠ w.lba) :
    (io.write w).disk b = io.disk b := Function.update_of_ne h _ _

theorem replay_clearWrites (io : Io) (m : ℕ) : io.replay (clearWrites m) =
    (List.range' INODE_START_SECTOR m).foldl
      (fun io sec => ataWriteSector io .inodeTable sec Buf.zero)
      (ataWriteSector io .superblock SUPERBLOCK_SECTOR
        (Buf.zero.blit 0 16 formatSuperblock.byteAt)) := by
  rw [clearWrites, Io.replay, List.foldl_cons, List.foldl_map]
  rfl

theorem formatDisk_eq_replay (io : Io) : formatDisk io = io.replay formatWrites := by
  rw [formatWrites, Io.replay_append, Io.replay_append, replay_singleton, replay_singleton,
    replay_clearWrites]
  rfl

/-- The device when the power fails after `c` writes of a format of the disk `d`. -/
def formatCut (d : Disk) (c : ℕ) : Io := VfsState.cutIo ⟨d, []⟩ (formatDisk ⟨d, []⟩) c

theorem formatCut_eq (d : Disk) (c : ℕ) :
    formatCut d c = Io.replay ⟨d, []⟩ (formatWrites.take c) := by
  unfold formatCut VfsState.cutIo
  rw [formatDisk_eq_replay, Io.log_replay]
  rfl

/-- A table with `.` and `..`, both naming inode `0`. -/
def RootTable (s : Sector) : Prop :=
  (∃ j < ENTRIES_PER_BLOCK, (getEntry s j).HasName dot ∧ (getEntry s j).inodeIdx = 0) ∧
    ∃ j < ENTRIES_PER_BLOCK, (getEntry s j).HasName dotdot ∧ (getEntry s j).inodeIdx = 0

/-- A fresh file system: inode `0` is a directory in use with `.` and `..` in its table, and
no other inode is in use. -/
structure FreshFs (d : Disk) : Prop where
  used : (inodeAt d 0).isUsed = true
  dir : (inodeAt d 0).isDir = true
  table : RootTable (d (dirBlock d 0))
  others : ∀ i < INODE_COUNT, i ≠ 0 → (inodeAt d i).isUsed = false

/-- When the next mount ends in a fresh file system, from the old contents of the disk and the
number of completed writes.  The superblock is the first write: once it is there the next
mount does not format, so either nothing or everything has been written, or the sectors not
yet written happen to hold what a format would have written there. -/
def Recoverable (d : Disk) (c : ℕ) : Prop :=
  c = 0 ∨ formatWrites.length ≤ c ∨ (c = 1 ∧ FreshFs d ∧ dirBlock d 0 ≠ SUPERBLOCK_SECTOR) ∨
    (c + 1 = formatWrites.length ∧ RootTable (d DATA_START_SECTOR))

theorem rootTable_newTable : RootTable (newTable 0 0) := by
  refine ⟨⟨0, by decide, ?_, ?_⟩, 1, by decide, ?_, ?_⟩
  · rw [getEntry_newTable_zero]
    exact hasName_mkEntry _ _ (by decide)
  · rw [getEntry_newTable_zero]
    rfl
  · rw [getEntry_newTable_one]
    exact hasName_mkEntry _ _ (by decide)
  · rw [getEntry_newTable_one]
    rfl

theorem freshFs_formatDisk (io : Io) : FreshFs (formatDisk io).disk := by
  have h0 : inodeAt (formatDisk io).disk 0 = rootInode := by
    rw [inodeAt_formatDisk io (by omega), if_pos rfl]
  refine ⟨?_, ?_, ?_, ?_⟩
  · rw [h0]
    decide
  · rw [h0]
    decide
  · have hb : dirBlock (formatDisk io).disk 0 = 17 := by
      unfold dirBlock
      rw [block_formatDisk]
      rfl
    rw [hb, formatDisk_disk, if_pos rfl]
    exact rootTable_newTable
  · intro i hi hne
    rw [inodeAt_formatDisk io hi, if_neg hne]
    decide

/-! The four kinds of cut. -/

theorem simplefsInit_of_superblock {io : Io} (h : io.disk SUPERBLOCK_SECTOR =
    Buf.zero.blit 0 16 formatSuperblock.byteAt) : (simplefsInit io).1 = io := by
  have hf : needsFormat io.disk = false := by
    unfold needsFormat
    rw [h, getSuperblock_blit]
    decide
  simp [simplefsInit, hf]

/-- The disk after the superblock and the first `m` sectors of the inode table. -/
theorem formatCut_clear (d : Disk) {m : ℕ} (hm : m ≤ 16) (b : ℕ) :
    (formatCut d (m + 1)).disk b =
      if 1 ≤ b ∧ b ≤ m then Buf.zero
      else if b = 0 then Buf.zero.blit 0 16 formatSuperblock.byteAt else d b := by
  have htake : formatWrites.take (m + 1) = clearWrites m := by
    unfold formatWrites
    rw [List.append_assoc, List.take_append_of_le_length]
    · unfold clearWrites
      rw [List.take_succ_cons, ← List.map_take, List.take_range'_of_length_ge]
      exact hm
    · rw [length_clearWrites]
      exact Nat.succ_le_succ hm
  have hc := clearSectors_disk Buf.zero .inodeTable (List.range' 1 m)
    (ataWriteSector ⟨d, []⟩ .superblock SUPERBLOCK_SECTOR
      (Buf.zero.blit 0 16 formatSuperblock.byteAt)) b
  rw [formatCut_eq, htake, replay_clearWrites]
  refine hc.trans ?_
  simp only [List.mem_range'_1, ataWriteSector, SUPERBLOCK_SECTOR]
  by_cases hb : 1 ≤ b ∧ b ≤ m
  · rw [if_pos (by omega), if_pos hb]
  · rw [if_neg (by omega), if_neg hb, Function.update_apply]

theorem not_rootTable_superblock :
    ¬ RootTable (Buf.zero.blit 0 16 formatSuperblock.byteAt) := by
  rintro ⟨⟨j, hj, hname, -⟩, -⟩
  have h0 := hname.2 0 (by omega)
  rw [filename_getEntry _ _ (by omega)] at h0
  have hz : (Buf.zero.blit 0 16 formatSuperblock.byteAt : Sector).get (32 * j + 4 + 0) = 0 := by
    by_cases hj0 : j = 0
    · subst hj0
      decide
    · rw [Buf.get_blit_out _ _ (by omega), Buf.get_zero]
  rw [hz] at h0
  exact absurd h0 (by decide)

theorem freshFs_cut_one (d : Disk) : FreshFs (formatCut d 1).disk ↔
    FreshFs d ∧ dirBlock d 0 ≠ SUPERBLOCK_SECTOR := by
  have hdisk : ∀ b, b ≠ 0 → (formatCut d 1).disk b = d b := by
    intro b hb
    rw [formatCut_clear d (Nat.zero_le 16), if_neg (by omega), if_neg hb]
  have hino : ∀ i, inodeAt (formatCut d 1).disk i = inodeAt d i := by
    intro i
    unfold inodeAt
    rw [hdisk _ (by simp [inodeSector])]
  have hblock : dirBlock (formatCut d 1).disk 0 = dirBlock d 0 := by
    unfold dirBlock
    rw [hino]
  have hsb : (formatCut d 1).disk 0 = Buf.zero.blit 0 16 formatSuperblock.byteAt := by
    rw [formatCut_clear d (Nat.zero_le 16), if_neg (by omega), if_pos rfl]
  constructor
  · intro h
    have htable := h.table
    have hused := h.used
    have hdir := h.dir
    rw [hblock] at htable
    rw [hino] at hused hdir
    have hne : dirBlock d 0 ≠ SUPERBLOCK_SECTOR := by
      intro he
      rw [he, SUPERBLOCK_SECTOR, hsb] at htable
      exact not_rootTable_superblock htable
    rw [hdisk _ hne] at htable
    refine ⟨⟨hused, hdir, htable, fun i hi hi0 => ?_⟩, hne⟩
    rw [← hino]
    exact h.others i hi hi0
  · rintro ⟨h, hne⟩
    refine ⟨?_, ?_, ?_, ?_⟩
    · rw [hino]
      exact h.used
    · rw [hino]
      exact h.dir
    · rw [hblock, hdisk _ hne]
      exact h.table
    · intro i hi hi0
      rw [hino]
      exact h.others i hi hi0

/-- With the first sector of the inode table cleared there is no root directory. -/
theorem not_freshFs_cut_clear (d : Disk) {m : ℕ} (hm0 : m ≠ 0) (hm : m ≤ 16) :
    ¬ FreshFs (formatCut d (m + 1)).disk := by
  intro h
  have hused := h.used
  have hz : (formatCut d (m + 1)).disk 1 = Buf.zero := by
    rw [formatCut_clear d hm, if_pos (by omega)]
  have h0 : inodeAt (formatCut d (m + 1)).disk 0 = Inode.fresh 0 := by
    unfold inodeAt
    rw [show inodeSector 0 = 1 from rfl, hz, getInode_zero]
  rw [h0] at hused
  exact absurd hused (by decide)

/-- Only the last write of a format is missing. -/
theorem formatCut_last (d : Disk) (b : ℕ) : (formatCut d 18).disk b =
    if b = 17 then d 17 else (formatDisk ⟨d, []⟩).disk b := by
  have h16 : (clearWrites INODE_SECTORS).length = 17 := by
    rw [length_clearWrites]
    rfl
  have h18 : formatCut d 18 = (formatCut d 17).write rootInodeWrite := by
    rw [formatCut_eq, formatCut_eq, formatWrites, List.take_left' (by simp [h16]),
      List.append_assoc, List.take_left' h16, Io.replay_append, replay_singleton]
  have h19 : formatDisk ⟨d, []⟩ = (formatCut d 18).write rootTableWrite := by
    rw [formatCut_eq, formatDisk_eq_replay, formatWrites, List.take_left' (by simp [h16]),
      Io.replay_append, replay_singleton]
  by_cases hb : b = 17
  · subst hb
    have hroot : (formatCut d 18).disk 17 = (formatCut d 17).disk 17 := by
      rw [h18, write_disk_of_ne _ _ (by decide)]
    rw [if_pos rfl, hroot, formatCut_clear d le_rfl, if_neg (by omega), if_neg (by omega)]
  · rw [if_neg hb, h19, write_disk_of_ne _ _ hb]

theorem freshFs_cut_last (d : Disk) :
    FreshFs (formatCut d 18).disk ↔ RootTable (d DATA_START_SECTOR) := by
  have hino : ∀ i < 64, inodeAt (formatCut d 18).disk i = inodeAt (formatDisk ⟨d, []⟩).disk i := by
    intro i hi
    unfold inodeAt
    rw [formatCut_last, if_neg (by simp only [inodeSector]; omega)]
  have hblock : dirBlock (formatCut d 18).disk 0 = 17 := by
    unfold dirBlock
    rw [hino 0 (by omega), block_formatDisk]
    rfl
  have hfresh := freshFs_formatDisk ⟨d, []⟩
  have htable : (formatCut d 18).disk (dirBlock (formatCut d 18).disk 0) = d DATA_START_SECTOR := by
    rw [hblock, formatCut_last, if_pos rfl]
    rfl
  constructor
  · intro h
    rw [← htable]
    exact h.table
  · intro h
    refine ⟨?_, ?_, ?_, ?_⟩
    · rw [hino 0 (by omega)]
      exact hfresh.used
    · rw [hino 0 (by omega)]
      exact hfresh.dir
    · rw [htable]
      exact h
    · intro i hi hi0
      rw [hino i hi]
      exact hfresh.others i hi hi0

/-- **Interrupted format.**  A format cut off after `c` sector writes and followed by a mount
ends in a fresh file system exactly when the cut is recoverable. -/
theorem interrupted_format_iff (d : Disk) (hd : needsFormat d = true) (c : ℕ) :
    FreshFs (simplefsInit (formatCut d c)).1.disk ↔ Recoverable d c := by
  unfold Recoverable
  rw [length_formatWrites]
  have hmount : c ≠ 0 → (simplefsInit (formatCut d c)).1 = formatCut d c := by
    intro hc
    apply simplefsInit_of_superblock
    obtain h17 | rfl | h19 : c ≤ 17 ∨ c = 18 ∨ 19 ≤ c := by omega
    · obtain ⟨m, rfl⟩ := Nat.exists_eq_succ_of_ne_zero hc
      rw [formatCut_clear d (by omega)]
      rfl
    · rw [formatCut_last, if_neg (by decide), formatDisk_disk]
      rfl
    · rw [formatCut_eq, List.take_of_length_le (by rw [length_formatWrites]; exact h19),
        ← formatDisk_eq_replay, formatDisk_disk]
      rfl
  by_cases h0 : c = 0
  · -- nothing written: the second run formats the old disk
    subst h0
    have hcut : formatCut d 0 = ⟨d, []⟩ := by
      rw [formatCut_eq]
      rfl
    have hinit : (simplefsInit ⟨d, []⟩).1 = formatDisk ⟨d, []⟩ := by
      simp [simplefsInit, hd]
    rw [hcut, hinit]
    exact ⟨fun _ => Or.inl rfl, fun _ => freshFs_formatDisk _⟩
  rw [hmount h0]
  obtain rfl | hmid | rfl | h19 : c = 1 ∨ (2 ≤ c ∧ c ≤ 17) ∨ c = 18 ∨ 19 ≤ c := by omega
  · rw [freshFs_cut_one]
    constructor
    · exact fun h => Or.inr (Or.inr (Or.inl ⟨rfl, h⟩))
    · rintro (h | h | ⟨-, h⟩ | ⟨h, -⟩)
      · omega
      · omega
      · exact h
      · omega
  · obtain ⟨m, rfl⟩ := Nat.exists_eq_succ_of_ne_zero h0
    constructor
    · intro h
      exact absurd h (not_freshFs_cut_clear d (by omega) (by omega))
    · rintro (h | h | ⟨h, -⟩ | ⟨h, -⟩) <;> omega
  · rw [freshFs_cut_last]
    constructor
    · exact fun h => Or.inr (Or.inr (Or.inr ⟨rfl, h⟩))
    · rintro (h | h | ⟨h, -⟩ | ⟨-, h⟩)
      · omega
      · omega
      · omega
      · exact h
  · rw [formatCut_eq, List.take_of_length_le (by rw [length_formatWrites]; exact h19),
      ← formatDisk_eq_replay]
    exact ⟨fun _ => Or.inr (Or.inl h19), fun _ => freshFs_formatDisk _⟩

theorem interrupted_format_iff_blank : needsFormat blankDisk = true ∧
    (FreshFs (simplefsInit (formatCut blankDisk 18)).1.disk ↔ Recoverable blankDisk 18) :=
  ⟨by decide, interrupted_format_iff blankDisk (by decide) 18⟩

/-- A blank disk whose format is cut off after the superblock is mounted without a root. -/
theorem blank_format_cut_after_superblock : needsFormat blankDisk = true ∧
    ¬ FreshFs (simplefsInit (formatCut blankDisk 1)).1.disk := by
  refine ⟨by decide, fun h => ?_⟩
  have hmount : (simplefsInit (formatCut blankDisk 1)).1 = formatCut blankDisk 1 := by
    apply simplefsInit_of_superblock
    rw [formatCut_clear blankDisk (Nat.zero_le 16)]
    rfl
  rw [hmount, freshFs_cut_one] at h
  have h0 : inodeAt blankDisk 0 = Inode.fresh 0 := getInode_zero 0
  have hused := h.1.used
  rw [h0] at hused
  exact absurd hused (by decide)

end NosmeriOs.Vfs
