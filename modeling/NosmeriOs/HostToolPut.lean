import NosmeriOs.HostToolSpec
import NosmeriOs.VfsRun

/-! # `put_file`: directories and failures

* `put_of_found`, `put_of_new`, `put_of_reject`, `put_of_no_inode`: what the command does on an
  image with the invariant, with inode and blocks made explicit.
* `put_keeps_directories_iff`: directories survive exactly when the name does not lead to one.
  The overwrite branch reuses whatever inode the entry names, and the root table also holds
  `.`, `..` and the subdirectories.
* `put_fails_unchanged_iff`: a failed command leaves the image alone unless it fails at the
  last step, when the data and the inode are already written: the root table is full, or the
  name is not ASCII. -/

namespace NosmeriOs.HostTool

open Bytes SimpleFs

/-! ### The new entry -/

/-- The directory entry the tool writes. -/
def toolEntry (k : ℕ) (nameEncoded : List UInt8) : DirEntry :=
  ⟨UInt32.ofNat k, Buf.ofFn fun i => nameEncoded.getD i 0⟩

theorem blit_packEntry (s : Sector) (j k : ℕ) (name : List UInt8) :
    s.blit (32 * j) 32 (packEntry k name) = setEntry s j (toolEntry k name) := by
  have hbyte : ∀ i < 32, packEntry k name i = (toolEntry k name).byteAt i := by
    intro i hi
    unfold packEntry toolEntry DirEntry.byteAt
    split_ifs
    · rfl
    · have hlt : i - 4 < MAX_FILENAME := by
        simp only [MAX_FILENAME]
        omega
      exact (Buf.get_ofFn (fun i => name.getD i 0) hlt).symm
  apply Buf.ext
  intro i hi
  unfold setEntry
  by_cases hin : 32 * j ≤ i ∧ i < 32 * j + 32
  · obtain ⟨m, rfl⟩ := Nat.exists_eq_add_of_le hin.1
    rw [Buf.get_blit_in _ _ _ _ (by omega) hi, Buf.get_blit_in _ _ _ _ (by omega) hi,
      hbyte m (by omega)]
  · rw [Buf.get_blit_out _ _ (by omega), Buf.get_blit_out _ _ (by omega)]

/-- All characters are ASCII. -/
def IsAscii (t : PyStr) : Prop := ∀ c ∈ t, c < 128

theorem encodeName_of_ascii {t : PyStr} (h : IsAscii t) :
    encodeName t = .ok (t.map UInt8.ofNat) := by
  unfold encodeName
  rw [if_pos (by simpa [IsAscii] using h)]

theorem encodeName_of_not_ascii {t : PyStr} (h : ¬ IsAscii t) :
    encodeName t = .error .unicodeEncodeError := by
  unfold encodeName
  rw [if_neg (by simpa [IsAscii] using h)]

section addRootEntry

variable {d : Disk} {k : ℕ} {t : PyStr}

theorem find_empty_eq (d : Disk) : ((List.range ENTRIES_PER_BLOCK).find? fun i =>
    decide (nameBytes (d ((inodeAt d 0).block 0).toNat) i = [])) = firstEmpty d 0 := by
  unfold firstEmpty
  congr 1
  funext i
  rw [Bool.eq_iff_iff, decide_eq_true_eq, nameBytes_eq_nil_iff]
  simp [slot, entryAt, dirBlock]

theorem addRootEntry_of_full (h : firstEmpty d 0 = none) : addRootEntry formatSuperblock d k t =
    (.error (.ioError "Root directory is full (max 16 entries)"), d) := by
  unfold addRootEntry
  rw [readInode_of_lt (by omega)]
  dsimp only
  rw [find_empty_eq, h]

theorem addRootEntry_of_not_ascii {j : ℕ} (h : firstEmpty d 0 = some j) (ht : ¬ IsAscii t) :
    addRootEntry formatSuperblock d k t = (.error .unicodeEncodeError, d) := by
  unfold addRootEntry
  rw [readInode_of_lt (by omega)]
  dsimp only
  rw [find_empty_eq, h]
  dsimp only
  rw [encodeName_of_not_ascii ht]

theorem addRootEntry_of_ascii {j : ℕ} (h : firstEmpty d 0 = some j) (ht : IsAscii t) :
    addRootEntry formatSuperblock d k t = (.ok (), Function.update d (dirBlock d 0)
      (setEntry (d (dirBlock d 0)) j (toolEntry k (t.map UInt8.ofNat)))) := by
  unfold addRootEntry
  rw [readInode_of_lt (by omega)]
  dsimp only
  rw [find_empty_eq, h]
  dsimp only
  rw [encodeName_of_ascii ht]
  dsimp only
  rw [blit_packEntry]
  rfl

end addRootEntry

/-! ### The command -/

/-- The host file exists, with this content, and name and size pass the checks. -/
structure Accepted (f : HostFile) (t : PyStr) (data : List UInt8) : Prop where
  content : f.content = some data
  name : t.length < MAX_FILENAME
  size : data.length ≤ DIRECT_BLOCKS * 512

/-- The number of blocks of a file. -/
def blockCount (data : List UInt8) : ℕ := (data.length + 511) / 512

section put

variable {d : Disk} {f : HostFile} {t : PyStr} {data : List UInt8}

theorem Accepted.count (h : Accepted f t data) : blockCount data ≤ 30 := by
  have := h.size
  simp only [DIRECT_BLOCKS] at this
  unfold blockCount
  omega

theorem put_eq (h : FsInv d) (f : HostFile) (t : PyStr) :
    put d f t = putFile formatSuperblock d f t := by
  unfold put
  rw [readSuperblock_of_inv h]

theorem put_of_reject (h : FsInv d) (hna : ∀ data, ¬ Accepted f t data) :
    ∃ e, put d f t = (.error e, d) := by
  rw [put_eq h]
  unfold putFile
  cases hc : f.content with
  | none => exact ⟨_, rfl⟩
  | some data =>
      dsimp only
      split_ifs with h1 h2
      · exact ⟨_, rfl⟩
      · exact ⟨_, rfl⟩
      · refine absurd ⟨hc, Nat.lt_of_not_le h1, ?_⟩ (hna data)
        simp only [DIRECT_BLOCKS] at h2 ⊢
        omega

theorem put_of_accepted (h : FsInv d) (ha : Accepted f t data) :
    put d f t = putData formatSuperblock d data t := by
  have hname : ¬ MAX_FILENAME ≤ t.length := Nat.not_le.2 ha.name
  have hsize : ¬ DIRECT_BLOCKS < (data.length + 512 - 1) / 512 := by
    have := ha.size
    simp only [DIRECT_BLOCKS] at this ⊢
    omega
  rw [put_eq h]
  unfold putFile
  rw [ha.content]
  dsimp only
  rw [if_neg hname, if_neg hsize]

theorem blockCount_eq (data : List UInt8) :
    (data.length + 512 - 1) / 512 = blockCount data := by
  unfold blockCount
  omega

/-- The name is in the root table: the inode of the entry is overwritten. -/
theorem put_of_found (h : FsInv d) (ha : Accepted f t data) {j : ℕ}
    (hj : findTarget d t = some j) :
    put d f t = (.ok (), storeFile d (slot d 0 j).inodeIdx.toNat
      (keptBlocks d (slot d 0 j).inodeIdx.toNat (blockCount data)) data) := by
  obtain ⟨hj16, hp, -⟩ := findTarget_some hj
  have hlt := (h.tree.entry 0 h.tree.root j hj16 hp).2.1
  rw [put_of_accepted h ha]
  unfold putData
  dsimp only
  rw [listDir_eq h]
  dsimp only
  rw [findEntry_eq, hj]
  dsimp only [Option.map_some]
  rw [blockCount_eq, show (rootEntry d j).inodeIdx = (slot d 0 j).inodeIdx.toNat from rfl,
    overwriteBlocks_eq d hlt ha.count]

theorem put_of_no_inode (h : FsInv d) (ha : Accepted f t data) (ht : findTarget d t = none)
    (hk : firstFree d = none) :
    put d f t = (.error (.ioError "No free Inodes available (max 64)"), d) := by
  rw [put_of_accepted h ha]
  unfold putData
  dsimp only
  rw [listDir_eq h]
  dsimp only
  rw [findEntry_eq, ht]
  dsimp only [Option.map_none]
  rw [findFreeInode_eq_first h.tree.root.used, hk]

/-- The device before the entry of a new file is written. -/
def newFile (d : Disk) (k : ℕ) (data : List UInt8) : Disk :=
  storeFile d k ((freeBlocks d).take (blockCount data)) data

/-- The name is not in the root table: a new inode, new blocks, then the entry. -/
theorem put_of_new (h : FsInv d) (ha : Accepted f t data) (ht : findTarget d t = none) {k : ℕ}
    (hk : firstFree d = some k) :
    put d f t = addRootEntry formatSuperblock (newFile d k data) k t := by
  rw [put_of_accepted h ha]
  unfold putData
  dsimp only
  rw [listDir_eq h]
  dsimp only
  rw [findEntry_eq, ht]
  dsimp only [Option.map_none]
  rw [findFreeInode_eq_first h.tree.root.used, hk]
  dsimp only
  rw [blockCount_eq, findFreeBlocks_eq d ha.count]
  rfl

theorem newFile_stored {k : ℕ} (hk : k < 64) (data : List UInt8) :
    Stored d (newFile d k data) k ((freeBlocks d).take (blockCount data)) data :=
  storeFile_spec hk (assignable_free d k _) data

theorem length_newBlocks (h : blockCount data ≤ 30) :
    ((freeBlocks d).take (blockCount data)).length = blockCount data := by
  have hlen := length_freeBlocks d
  rw [List.length_take]
  omega

/-- The tree is as it was when the inode has just been filled. -/
theorem newFile_sameTree (h : FsInv d) {k : ℕ} (hk : firstFree d = some k) (data : List UInt8) :
    SameTree d (newFile d k data) := by
  obtain ⟨hk64, hfree, -⟩ := firstFree_eq_some_iff.1 hk
  refine (newFile_stored hk64 data).sameTree h.blocks hk64 ?_ (assignable_free d k _)
  intro hu
  rw [hfree] at hu
  cases hu

end put

/-! ### Failures -/

/-- If the command raises an exception, the image is as before. -/
def RaisesUnchanged (d : Disk) (r : Except PyError Unit × Disk) : Prop :=
  ∀ e, r.1 = .error e → r.2 = d

/-- The new file passes every check but the last: its name is not in the root table, there is a
free inode, but the table has no empty slot or the name cannot be encoded. -/
def LateFailure (d : Disk) (f : HostFile) (t : PyStr) : Prop :=
  (∃ data, Accepted f t data) ∧ findTarget d t = none ∧
    (∃ k < INODE_COUNT, (inodeAt d k).isUsed = false) ∧
    ((∀ j < ENTRIES_PER_BLOCK, (slot d 0 j).isPresent = true) ∨ ¬ IsAscii t)

section failures

variable {d : Disk} {f : HostFile} {t : PyStr} {data : List UInt8}

theorem newFile_ne (d : Disk) {k : ℕ} (hk : firstFree d = some k) (data : List UInt8) :
    newFile d k data ≠ d := by
  obtain ⟨hk64, hfree, -⟩ := firstFree_eq_some_iff.1 hk
  intro he
  have hu := (newFile_stored (d := d) hk64 data).isUsed
  rw [he, hfree] at hu
  cases hu

/-- A late failure leaves the new inode and its data in the image. -/
theorem not_raisesUnchanged_of_late (h : FsInv d) (hl : LateFailure d f t) :
    ¬ RaisesUnchanged d (put d f t) := by
  obtain ⟨⟨data, ha⟩, ht, hfree, hlast⟩ := hl
  obtain ⟨k, hk⟩ := exists_free_iff.1 hfree
  have hempty := firstEmpty_congr ((newFile_sameTree h hk data).slots 0 h.tree.root)
  intro hun
  rw [put_of_new h ha ht hk] at hun
  cases hj : firstEmpty d 0 with
  | none =>
      rw [addRootEntry_of_full (hempty.trans hj)] at hun
      exact newFile_ne d hk data (hun _ rfl)
  | some j =>
      have hna : ¬ IsAscii t := by
        obtain hfull | hna := hlast
        · rw [firstEmpty_eq_none_iff.2 hfull] at hj
          cases hj
        · exact hna
      rw [addRootEntry_of_not_ascii (hempty.trans hj) hna] at hun
      exact newFile_ne d hk data (hun _ rfl)

theorem raisesUnchanged_of_not_late (h : FsInv d) (hl : ¬ LateFailure d f t) :
    RaisesUnchanged d (put d f t) := by
  intro e he
  by_cases hacc : ∃ data, Accepted f t data
  · obtain ⟨data, ha⟩ := hacc
    cases ht : findTarget d t with
    | some j =>
        rw [put_of_found h ha ht] at he
        cases he
    | none =>
        cases hk : firstFree d with
        | none => rw [put_of_no_inode h ha ht hk]
        | some k =>
            have hempty := firstEmpty_congr ((newFile_sameTree h hk data).slots 0 h.tree.root)
            have hlast : ¬ ((∀ j < ENTRIES_PER_BLOCK, (slot d 0 j).isPresent = true) ∨
                ¬ IsAscii t) := fun hlast =>
              hl ⟨⟨data, ha⟩, ht, exists_free_iff.2 ⟨k, hk⟩, hlast⟩
            rw [not_or, not_not] at hlast
            cases hj : firstEmpty d 0 with
            | none => exact absurd (firstEmpty_eq_none_iff.1 hj) hlast.1
            | some j =>
                rw [put_of_new h ha ht hk, addRootEntry_of_ascii (hempty.trans hj) hlast.2] at he
                cases he
  · obtain ⟨e', he'⟩ := put_of_reject h (not_exists.1 hacc)
    rw [he']

/-- **Failed `put_file`.**  On every well-formed image, for every host file and every name: a
command that raises an exception leaves the image unchanged unless it is a late failure. -/
theorem put_fails_unchanged_iff (d : Disk) (h : FsInv d) (f : HostFile) (t : PyStr) :
    RaisesUnchanged d (put d f t) ↔ ¬ LateFailure d f t := by
  constructor
  · intro hun hl
    exact not_raisesUnchanged_of_late h hl hun
  · exact raisesUnchanged_of_not_late h

end failures

/-! ### Directories -/

/-- Directories are as before: inodes with `INODE_DIR` are unchanged, and so are the tables of
all directories but the root. -/
structure DirsKept (d d' : Disk) : Prop where
  inode : ∀ i < INODE_COUNT, (inodeAt d i).isDir = true → inodeAt d' i = inodeAt d i
  table : ∀ i, i ≠ 0 → IsDirectory d i → d' (dirBlock d i) = d (dirBlock d i)

/-- The command is accepted, and its name leads to an entry that names a directory. -/
def HitsDirectory (d : Disk) (f : HostFile) (t : PyStr) : Prop :=
  (∃ data, Accepted f t data) ∧
    ∃ j, findTarget d t = some j ∧ (inodeAt d (slot d 0 j).inodeIdx.toNat).isDir = true

section directories

variable {d : Disk} {f : HostFile} {t : PyStr} {data : List UInt8}

theorem DirsKept.refl (d : Disk) : DirsKept d d := ⟨fun _ _ _ => rfl, fun _ _ _ => rfl⟩

theorem Stored.dirsKept {d' : Disk} {k : ℕ} {bs : List ℕ} (hs : Stored d d' k bs data)
    (h : FsInv d) (hk : k < 64) (hfile : (inodeAt d k).isDir = false) (ha : Assignable d k bs) :
    DirsKept d d' := by
  have hne : ∀ i, (inodeAt d i).isDir = true → i ≠ k := by
    rintro i hi rfl
    rw [hfile] at hi
    cases hi
  refine ⟨fun i hi hd => hs.others i hi (hne i hd), fun i _ hi => ?_⟩
  exact (hs.sameNode h.blocks hk ha hi.lt hi.used (hne i hi.dir)).data 0 (by omega) hi.table

/-- Writing an entry of the root table keeps the other directories. -/
theorem DirsKept.root {d' : Disk} (hk : DirsKept d d') (h : FsInv d) (s : Sector) :
    DirsKept d (Function.update d' (dirBlock d' 0) s) := by
  have hblock : dirBlock d' 0 = dirBlock d 0 := by
    unfold dirBlock
    rw [hk.inode 0 (by decide) h.tree.root.dir]
  have hge := (h.blocks.dirBlock_range h.tree.root).1
  rw [hblock]
  refine ⟨fun i hi hd => ?_, fun i hi0 hi => ?_⟩
  · rw [inodeAt_update _ _ hi hge]
    exact hk.inode i hi hd
  · have hne : dirBlock d i ≠ dirBlock d 0 := fun he =>
      hi0 (h.blocks.dirBlock_inj h.tree.root hi he)
    rw [Function.update_of_ne hne]
    exact hk.table i hi0 hi

/-- Overwriting a directory destroys it. -/
theorem not_dirsKept_of_hits (h : FsInv d) (hh : HitsDirectory d f t) :
    ¬ DirsKept d (put d f t).2 := by
  obtain ⟨⟨data, ha⟩, j, hj, hdir⟩ := hh
  obtain ⟨hj16, hp, -⟩ := findTarget_some hj
  obtain ⟨-, hlt, hused⟩ := h.tree.entry 0 h.tree.root j hj16 hp
  intro hkept
  have hs := storeFile_spec hlt (assignable_kept h.blocks hlt hused (blockCount data)) data
  have hi := hkept.inode _ hlt hdir
  rw [put_of_found h ha hj] at hi
  have hfile := hs.isDir
  rw [hi, hdir] at hfile
  cases hfile

theorem dirsKept_of_not_hits (h : FsInv d)
    (hclean : ∀ i < 64, (inodeAt d i).isUsed = false → (inodeAt d i).isDir = false)
    (hh : ¬ HitsDirectory d f t) : DirsKept d (put d f t).2 := by
  by_cases hacc : ∃ data, Accepted f t data
  · obtain ⟨data, ha⟩ := hacc
    cases ht : findTarget d t with
    | some j =>
        obtain ⟨hj16, hp, -⟩ := findTarget_some ht
        obtain ⟨-, hlt, hused⟩ := h.tree.entry 0 h.tree.root j hj16 hp
        have hfile : (inodeAt d (slot d 0 j).inodeIdx.toNat).isDir = false := by
          by_contra hd
          exact hh ⟨⟨data, ha⟩, j, ht, by simpa using hd⟩
        have hkept := assignable_kept h.blocks hlt hused (blockCount data)
        rw [put_of_found h ha ht]
        exact (storeFile_spec hlt hkept data).dirsKept h hlt hfile hkept
    | none =>
        cases hk : firstFree d with
        | none =>
            rw [put_of_no_inode h ha ht hk]
            exact DirsKept.refl d
        | some k =>
            obtain ⟨hk64, hfree, -⟩ := firstFree_eq_some_iff.1 hk
            have hnew := (newFile_stored hk64 data).dirsKept h hk64 (hclean k hk64 hfree)
              (assignable_free d k _)
            rw [put_of_new h ha ht hk]
            cases hj : firstEmpty (newFile d k data) 0 with
            | none =>
                rw [addRootEntry_of_full hj]
                exact hnew
            | some j =>
                by_cases hasc : IsAscii t
                · rw [addRootEntry_of_ascii hj hasc]
                  exact hnew.root h _
                · rw [addRootEntry_of_not_ascii hj hasc]
                  exact hnew
  · obtain ⟨e', he'⟩ := put_of_reject h (not_exists.1 hacc)
    rw [he']
    exact DirsKept.refl d

/-- An image the kernel accepts, in which an inode that is not in use is no directory. -/
structure WellFormed (d : Disk) : Prop extends FsInv d where
  clean : ∀ i < INODE_COUNT, (inodeAt d i).isUsed = false → (inodeAt d i).isDir = false

/-- **`put_file` and directories.**  On every well-formed image, for every host file and every
name: directories are kept exactly when the name does not lead to one. -/
theorem put_keeps_directories_iff (d : Disk) (h : WellFormed d) (f : HostFile) (t : PyStr) :
    DirsKept d (put d f t).2 ↔ ¬ HitsDirectory d f t := by
  constructor
  · intro hkept hh
    exact not_dirsKept_of_hits h.toFsInv hh hkept
  · exact dirsKept_of_not_hits h.toFsInv h.clean

end directories

/-! ### A fresh image -/

/-- A formatted blank disk. -/
def freshImage : Disk := (formatDisk ⟨Vfs.blankDisk, []⟩).disk

theorem wellFormed_format (io : Io) : WellFormed (formatDisk io).disk := by
  refine ⟨formatDisk_inv io, fun i hi hfree => ?_⟩
  rw [inodeAt_formatDisk io hi] at hfree ⊢
  by_cases h0 : i = 0
  · rw [if_pos h0] at hfree
    exact absurd hfree (by decide)
  · rw [if_neg h0]
    decide

theorem slotName_of_hasName {d : Disk} {j : ℕ} {s : CStr} (h : (slot d 0 j).HasName s) :
    slotName d j = decodeName s.bytes := by
  unfold slotName
  rw [nameBytes_of_hasName h]

/-- The two entries of a fresh root table. -/
theorem slotName_fresh (io : Io) :
    slotName (formatDisk io).disk 0 = [46] ∧ slotName (formatDisk io).disk 1 = [46, 46] := by
  have htree := (formatDisk_inv io).tree
  rw [slotName_of_hasName (htree.dot 0 htree.root).1,
    slotName_of_hasName (htree.dotdot 0 htree.root).1]
  decide

theorem findTarget_fresh_dot : findTarget freshImage [46] = some 0 := by
  refine List.find?_range_eq_some.2 ⟨?_, by simp, fun j hj => absurd hj (by omega)⟩
  have htree := (formatDisk_inv ⟨Vfs.blankDisk, []⟩).tree
  have hp := (htree.dot 0 htree.root).1.isPresent_iff.2 (by decide)
  rw [Bool.and_eq_true, decide_eq_true_eq]
  exact ⟨hp, (slotName_fresh _).1⟩

theorem findTarget_fresh_none {t : PyStr} (h1 : t ≠ [46]) (h2 : t ≠ [46, 46]) :
    findTarget freshImage t = none := by
  refine List.find?_range_eq_none.2 fun j hj => ?_
  obtain rfl | rfl | hj2 : j = 0 ∨ j = 1 ∨ 2 ≤ j := by omega
  · simp [freshImage, slotName_fresh, h1.symm]
  · simp [freshImage, slotName_fresh, h2.symm]
  · have hp : (slot freshImage 0 j).isPresent = false := by
      rw [freshImage, slot_formatDisk, isPresent_newTable _ _ hj2]
    simp [hp]

theorem put_fails_unchanged_iff_fresh : FsInv freshImage ∧
    (RaisesUnchanged freshImage (put freshImage ⟨[97], some []⟩ [97]) ↔
      ¬ LateFailure freshImage ⟨[97], some []⟩ [97]) :=
  ⟨formatDisk_inv _, put_fails_unchanged_iff freshImage (formatDisk_inv _) _ _⟩

/-- An empty file under the name `"é"`: the name cannot be encoded, but by then inode `1` is in
use. -/
theorem put_non_ascii_leaks : FsInv freshImage ∧
    ¬ RaisesUnchanged freshImage (put freshImage ⟨[97], some []⟩ [233]) := by
  refine ⟨formatDisk_inv _, not_raisesUnchanged_of_late (formatDisk_inv _) ?_⟩
  refine ⟨⟨[], rfl, by decide, by decide⟩, findTarget_fresh_none (by decide) (by decide),
    ⟨1, by decide, ?_⟩, Or.inr ?_⟩
  · rw [freshImage, inodeAt_formatDisk _ (by omega)]
    decide
  · intro hasc
    have := hasc 233 (by simp)
    omega

theorem put_keeps_directories_iff_fresh : WellFormed freshImage ∧
    (DirsKept freshImage (put freshImage ⟨[97], some []⟩ [97]).2 ↔
      ¬ HitsDirectory freshImage ⟨[97], some []⟩ [97]) :=
  ⟨wellFormed_format _, put_keeps_directories_iff freshImage (wellFormed_format _) _ _⟩

/-- An empty file under the name `"."` turns the root directory into a file. -/
theorem put_on_dot_destroys_root : WellFormed freshImage ∧
    ¬ DirsKept freshImage (put freshImage ⟨[97], some []⟩ [46]).2 := by
  refine ⟨wellFormed_format _, not_dirsKept_of_hits (formatDisk_inv _) ?_⟩
  refine ⟨⟨[], rfl, by decide, by decide⟩, 0, findTarget_fresh_dot, ?_⟩
  have htree := (formatDisk_inv ⟨Vfs.blankDisk, []⟩).tree
  have hdot := (htree.dot 0 htree.root).2
  rw [freshImage, hdot]
  exact htree.root.dir

end NosmeriOs.HostTool
