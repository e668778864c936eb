import NosmeriOs.HostTool
import NosmeriOs.SimpleFsAlloc

/-! # What the host tool does to a well-formed image

The tool's encoding and searches, in the terms the kernel's model is analysed in.

* **Inodes.**  `_write_inode` is `putInode`, `_find_free_inode` is `firstFree`.
* **Blocks.**  `freeBlocks d` lists the free data blocks in order; `_find_free_blocks` returns its
  first elements and never runs out on a disk of 32768 sectors.
* **Entries.**  `findTarget d t` is the slot of the root table the tool takes for the name `t`.
* **Storing.**  `storeFile_spec`: the new inode and its blocks, and nothing else.
* `put_cases` and `rm_cases` put these together. -/

namespace NosmeriOs.HostTool

open Bytes SimpleFs

/-! ### Inodes -/

theorem inodeOf_eq (d : Disk) (i : ℕ) : inodeOf d i = inodeAt d i := by
  unfold inodeOf inodeAt inodeSector
  rw [Nat.add_comm]
  rfl

theorem writeInode_eq_put (d : Disk) (i : ℕ) (n : Inode) : writeInode d i n = putInode d i n := by
  unfold writeInode putInode setInode inodeSector
  simp only [INODE_START_SECTOR, INODES_PER_SECTOR]
  rw [Nat.add_comm 1, Nat.mul_comm (i % 4)]

theorem readSuperblock_of_inv {d : Disk} (h : FsInv d) :
    readSuperblock d = .ok formatSuperblock := by
  unfold readSuperblock
  rw [h.superblock]
  rfl

theorem readInode_of_lt {d : Disk} {i : ℕ} (h : i < 64) :
    readInode formatSuperblock d i = .ok (inodeAt d i) := by
  unfold readInode
  rw [inodeOf_eq, if_neg (by simpa [formatSuperblock, INODE_COUNT] using h)]

/-- With inode `0` in use, the tool's search finds the kernel's first free inode. -/
theorem findFreeInode_eq_first {d : Disk} (h0 : (inodeAt d 0).isUsed = true) :
    findFreeInode formatSuperblock d = firstFree d := by
  have hr : List.range 64 = 0 :: List.range' 1 63 := by decide
  unfold findFreeInode firstFree
  rw [hr, List.find?_cons, h0]
  simp only [inodeOf_eq, Bool.not_true]
  rfl

/-! ### Blocks -/

/-- Block `b` belongs to an inode in use. -/
def Taken (d : Disk) (b : ℕ) : Prop :=
  ∃ i < 64, (inodeAt d i).isUsed = true ∧ ∃ j < 30, ((inodeAt d i).block j).toNat = b

theorem mem_usedBlocks {ino : Inode} {b : ℕ} :
    b ∈ usedBlocks ino ↔ b ≠ 0 ∧ ∃ j < 30, (ino.block j).toNat = b := by
  unfold usedBlocks
  simp only [List.mem_filter, List.mem_map, List.mem_range, DIRECT_BLOCKS, decide_eq_true_eq]
  tauto

theorem mem_getAllUsedBlocks {d : Disk} {b : ℕ} :
    b ∈ getAllUsedBlocks formatSuperblock d ↔ b ≠ 0 ∧ Taken d b := by
  unfold getAllUsedBlocks Taken
  simp only [List.mem_flatMap, List.mem_range, inodeOf_eq]
  constructor
  · rintro ⟨i, hi, hb⟩
    by_cases hu : (inodeAt d i).isUsed = true
    · rw [if_pos hu] at hb
      obtain ⟨h0, hj⟩ := mem_usedBlocks.1 hb
      exact ⟨h0, i, hi, hu, hj⟩
    · rw [if_neg hu] at hb
      cases hb
  · rintro ⟨h0, i, hi, hu, hj⟩
    refine ⟨i, hi, ?_⟩
    rw [if_pos hu]
    exact mem_usedBlocks.2 ⟨h0, hj⟩

/-- The free data blocks, in order. -/
def freeBlocks (d : Disk) : List ℕ :=
  (List.range' 17 32751).filter fun b => b ∉ getAllUsedBlocks formatSuperblock d

theorem mem_freeBlocks {d : Disk} {b : ℕ} :
    b ∈ freeBlocks d ↔ 17 ≤ b ∧ b < 32768 ∧ ¬ Taken d b := by
  unfold freeBlocks
  simp only [List.mem_filter, List.mem_range'_1, decide_eq_true_eq, mem_getAllUsedBlocks]
  constructor
  · rintro ⟨⟨h1, h2⟩, hn⟩
    exact ⟨h1, h2, fun ht => hn ⟨by omega, ht⟩⟩
  · rintro ⟨h1, h2, hn⟩
    exact ⟨⟨h1, h2⟩, fun ht => hn ht.2⟩

theorem nodup_freeBlocks (d : Disk) : (freeBlocks d).Nodup := List.Nodup.filter _ List.nodup_range'

theorem findFreeLoop_eq (used : List ℕ) (count : ℕ) : ∀ (n c : ℕ) (acc : List ℕ),
    findFreeLoop used count n c acc =
      acc ++ ((List.range' c n).filter fun b => b ∉ used).take (count - acc.length)
  | 0, c, acc => by simp [findFreeLoop]
  | n + 1, c, acc => by
      unfold findFreeLoop
      rw [List.range'_succ, List.filter_cons]
      by_cases hlt : acc.length < count
      · rw [if_pos hlt, findFreeLoop_eq used count n (c + 1)]
        by_cases hc : c ∈ used
        · simp [hc]
        · obtain ⟨m, hm⟩ := Nat.exists_eq_succ_of_ne_zero (Nat.sub_ne_zero_of_lt hlt)
          have hm' : count - (acc.length + 1) = m := by omega
          simp [hc, hm, hm']
      · have h0 : count - acc.length = 0 := by omega
        simp [hlt, h0]

/-- At most 64 · 30 blocks are taken. -/
theorem length_taken_le (d : Disk) {l : List ℕ} (hl : l.Nodup) (ht : ∀ b ∈ l, Taken d b) :
    l.length ≤ 1920 := by
  have hsub : l ⊆ (List.range 64).flatMap fun i =>
      (List.range 30).map fun j => ((inodeAt d i).block j).toNat := by
    intro b hb
    have hb' := ht b hb
    unfold Taken at hb'
    simp only [List.mem_flatMap, List.mem_map, List.mem_range]
    tauto
  refine (hl.subperm hsub).length_le.trans ?_
  simp [List.length_flatMap]

theorem length_filter_free (d : Disk) (a n : ℕ) :
    n ≤ ((List.range' a n).filter fun b => b ∉ getAllUsedBlocks formatSuperblock d).length +
      1920 := by
  have hsum := List.length_eq_length_filter_add (l := List.range' a n)
    fun b => decide (b ∉ getAllUsedBlocks formatSuperblock d)
  have htaken := length_taken_le d (l := (List.range' a n).filter fun b =>
    !decide (b ∉ getAllUsedBlocks formatSuperblock d)) (List.Nodup.filter _ List.nodup_range') (by
      intro b hb
      simp only [List.mem_filter, Bool.not_eq_true', decide_eq_false_iff_not, not_not,
        mem_getAllUsedBlocks] at hb
      exact hb.2.2)
  rw [List.length_range'] at hsum
  omega

theorem length_freeBlocks (d : Disk) : 30 ≤ (freeBlocks d).length := by
  have h := length_filter_free d 17 32751
  unfold freeBlocks
  omega

/-- The tool never runs out of blocks. -/
theorem findFreeBlocks_eq (d : Disk) {count : ℕ} (h : count ≤ 30) :
    findFreeBlocks formatSuperblock d count = .ok ((freeBlocks d).take count) := by
  have hlen := length_freeBlocks d
  have hloop : findFreeLoop (getAllUsedBlocks formatSuperblock d) count
      (formatSuperblock.totalSectors.toNat - formatSuperblock.dataBlockStart.toNat)
      formatSuperblock.dataBlockStart.toNat [] = (freeBlocks d).take count := by
    rw [findFreeLoop_eq]
    rfl
  unfold findFreeBlocks
  simp only [hloop]
  rw [if_neg (by rw [List.length_take]; omega)]

/-! ### Entries -/

theorem nameBytes_eq (s : Sector) (j : ℕ) :
    nameBytes s j = (CStr.ofMem MAX_FILENAME fun k => s.get (32 * j + 4 + k)).bytes := rfl

theorem nameBytes_eq_nil_iff (s : Sector) (j : ℕ) :
    nameBytes s j = [] ↔ (getEntry s j).isPresent = false := by
  have hr : List.range MAX_FILENAME = 0 :: List.range' 1 27 := by decide
  unfold nameBytes DirEntry.isPresent
  rw [filename_getEntry _ _ (by omega), hr, List.map_cons, List.takeWhile_cons]
  by_cases h0 : s.get (32 * j + 4 + 0) = 0
  · simp [h0]
  · simp [h0]

theorem nameBytes_of_hasName {s : Sector} {j : ℕ} {name : CStr} (h : (getEntry s j).HasName name) :
    nameBytes s j = name.bytes := by
  have hholds : CStr.Holds (fun k => s.get (32 * j + 4 + k)) name := by
    refine h.2.congr fun k hk => ?_
    have hlt := h.1
    rw [filename_getEntry _ _ (by omega)]
  have hmem : CStr.ofMem MAX_FILENAME (fun k => s.get (32 * j + 4 + k)) = name :=
    CStr.ofMem_of_holds hholds h.1
  rw [nameBytes_eq, hmem]

/-- The name the tool reads in slot `j` of the root table. -/
def slotName (d : Disk) (j : ℕ) : PyStr := decodeName (nameBytes (d (dirBlock d 0)) j)

/-- The entry `list_dir` makes of slot `j`. -/
def rootEntry (d : Disk) (j : ℕ) : Entry :=
  ⟨j, (slot d 0 j).inodeIdx.toNat, slotName d j,
    (inodeAt d (slot d 0 j).inodeIdx.toNat).isDir⟩

/-- The first slot of the root table that the tool takes for the name `t`. -/
def findTarget (d : Disk) (t : PyStr) : Option ℕ :=
  (List.range 16).find? fun j => (slot d 0 j).isPresent && decide (slotName d j = t)

theorem findTarget_some {d : Disk} {t : PyStr} {j : ℕ} (h : findTarget d t = some j) :
    j < 16 ∧ (slot d 0 j).isPresent = true ∧ slotName d j = t := by
  obtain ⟨hp, hj, -⟩ := List.find?_range_eq_some.1 h
  rw [Bool.and_eq_true, decide_eq_true_eq] at hp
  exact ⟨List.mem_range.1 hj, hp.1, hp.2⟩

theorem findTarget_none {d : Disk} {t : PyStr} (h : findTarget d t = none) {j : ℕ} (hj : j < 16)
    (hp : (slot d 0 j).isPresent = true) : slotName d j ≠ t := by
  have hj' := List.find?_range_eq_none.1 h j hj
  simpa [hp] using hj'

section directory

variable {d : Disk}

theorem listFrom_eq (h : FsInv d) : ∀ n i : ℕ, i + n ≤ 16 →
    listFrom formatSuperblock d (d (dirBlock d 0)) n i =
      .ok (((List.range' i n).filter fun j => (slot d 0 j).isPresent).map (rootEntry d))
  | 0, i, _ => rfl
  | n + 1, i, hi => by
      have hrest := listFrom_eq h n (i + 1) (by omega)
      rw [listFrom, List.range'_succ, List.filter_cons, hrest]
      cases hp : (slot d 0 i).isPresent with
      | false => rw [if_pos ((nameBytes_eq_nil_iff _ _).2 hp)]; rfl
      | true =>
          have hne : ¬ nameBytes (d (dirBlock d 0)) i = [] := by
            rw [nameBytes_eq_nil_iff]
            intro hf
            have : (slot d 0 i).isPresent = false := hf
            rw [hp] at this
            cases this
          have hlt := (h.tree.entry 0 h.tree.root i (by omega) hp).2.1
          have hread : readInode formatSuperblock d ((d (dirBlock d 0)).word (32 * i)).toNat =
              .ok (inodeAt d (slot d 0 i).inodeIdx.toNat) := readInode_of_lt hlt
          rw [if_neg hne]
          dsimp only
          rw [hread]
          rfl

theorem listDir_eq (h : FsInv d) : listDir formatSuperblock d 0 =
    .ok (((List.range 16).filter fun j => (slot d 0 j).isPresent).map (rootEntry d)) := by
  unfold listDir
  rw [readInode_of_lt (by omega), List.range_eq_range']
  have hdir := h.tree.root.dir
  simp only [bind, Except.bind, hdir, Bool.not_true, Bool.false_eq_true, if_false]
  exact listFrom_eq h 16 0 le_rfl

theorem findEntry_eq (d : Disk) (t : PyStr) :
    findEntry (((List.range 16).filter fun j => (slot d 0 j).isPresent).map (rootEntry d)) t =
      (findTarget d t).map (rootEntry d) := by
  unfold findEntry findTarget
  rw [List.find?_map, List.find?_filter]
  congr 2
  funext j
  rw [Bool.decide_and, Bool.decide_eq_true, Bool.decide_eq_true]
  rfl

end directory

/-- The blocks an existing file keeps or gets. -/
def keptBlocks (d : Disk) (k needed : ℕ) : List ℕ :=
  if (usedBlocks (inodeAt d k)).length < needed then
    usedBlocks (inodeAt d k) ++ (freeBlocks d).take (needed - (usedBlocks (inodeAt d k)).length)
  else (usedBlocks (inodeAt d k)).take needed

theorem overwriteBlocks_eq (d : Disk) {k needed : ℕ} (hk : k < 64) (hn : needed ≤ 30) :
    overwriteBlocks formatSuperblock d k needed = .ok (keptBlocks d k needed) := by
  unfold overwriteBlocks keptBlocks
  rw [readInode_of_lt hk]
  simp only [bind, Except.bind]
  split_ifs with hlt
  · rw [findFreeBlocks_eq d (by omega)]
  · rfl

/-! ### Storing a file -/

/-- Blocks that inode `k` may use: distinct data blocks, each its own or nobody's. -/
structure Assignable (d : Disk) (k : ℕ) (bs : List ℕ) : Prop where
  nodup : bs.Nodup
  range : ∀ b ∈ bs, 17 ≤ b ∧ b < 32768
  own : ∀ b ∈ bs, ((inodeAt d k).isUsed = true ∧ ∃ j < 30, ((inodeAt d k).block j).toNat = b) ∨
    ¬ Taken d b

theorem assignable_free (d : Disk) (k n : ℕ) : Assignable d k ((freeBlocks d).take n) := by
  have hmem : ∀ b ∈ (freeBlocks d).take n, 17 ≤ b ∧ b < 32768 ∧ ¬ Taken d b := fun b hb =>
    mem_freeBlocks.1 (List.mem_of_mem_take hb)
  exact ⟨(nodup_freeBlocks d).sublist (List.take_sublist _ _),
    fun b hb => ⟨(hmem b hb).1, (hmem b hb).2.1⟩, fun b hb => Or.inr (hmem b hb).2.2⟩

theorem nodup_usedBlocks {d : Disk} (h : BlockInv d) {k : ℕ} (hk : k < 64)
    (hu : (inodeAt d k).isUsed = true) : (usedBlocks (inodeAt d k)).Nodup := by
  unfold usedBlocks
  rw [List.filter_map]
  refine List.Nodup.map_on ?_ (List.nodup_range.filter _)
  intro x hx y hy he
  simp only [List.mem_filter, List.mem_range, DIRECT_BLOCKS, Function.comp, ne_eq,
    decide_not, Bool.not_eq_true', decide_eq_false_iff_not] at hx hy
  have hne : (inodeAt d k).block x ≠ 0 := by
    intro h0
    rw [h0] at hx
    exact hx.2 rfl
  exact (h.unique k hk hu x hx.1 hne k hk hu y hy.1 (UInt32.toNat.inj he.symm)).2.symm

theorem assignable_used {d : Disk} (h : BlockInv d) {k : ℕ} (hk : k < 64)
    (hu : (inodeAt d k).isUsed = true) : Assignable d k (usedBlocks (inodeAt d k)) := by
  refine ⟨nodup_usedBlocks h hk hu, fun b hb => ?_, fun b hb => Or.inl ⟨hu, ?_⟩⟩
  · obtain ⟨h0, j, hj, rfl⟩ := mem_usedBlocks.1 hb
    refine h.range k hk hu j hj fun he => h0 ?_
    rw [he]
    rfl
  · exact (mem_usedBlocks.1 hb).2

theorem Assignable.sublist {d : Disk} {k : ℕ} {bs bs' : List ℕ} (h : Assignable d k bs)
    (hs : bs'.Sublist bs) : Assignable d k bs' :=
  ⟨h.nodup.sublist hs, fun b hb => h.range b (hs.subset hb), fun b hb => h.own b (hs.subset hb)⟩

theorem assignable_kept {d : Disk} (h : BlockInv d) {k : ℕ} (hk : k < 64)
    (hu : (inodeAt d k).isUsed = true) (needed : ℕ) : Assignable d k (keptBlocks d k needed) := by
  have hold := assignable_used h hk hu
  unfold keptBlocks
  split_ifs
  · have hnew := assignable_free d k (needed - (usedBlocks (inodeAt d k)).length)
    refine ⟨List.nodup_append'.2 ⟨hold.nodup, hnew.nodup, ?_⟩, ?_, ?_⟩
    · intro b hb hb'
      obtain ⟨-, j, hj, he⟩ := mem_usedBlocks.1 hb
      have hfree := (mem_freeBlocks.1 (List.mem_of_mem_take hb')).2.2
      exact hfree ⟨k, hk, hu, j, hj, he⟩
    · intro b hb
      obtain hb | hb := List.mem_append.1 hb
      · exact hold.range b hb
      · exact hnew.range b hb
    · intro b hb
      obtain hb | hb := List.mem_append.1 hb
      · exact hold.own b hb
      · exact hnew.own b hb
  · exact hold.sublist (List.take_sublist _ _)

theorem length_keptBlocks (d : Disk) (k : ℕ) {needed : ℕ} (hn : needed ≤ 30) :
    (keptBlocks d k needed).length = needed := by
  have hlen := length_freeBlocks d
  unfold keptBlocks
  split_ifs with hlt
  · rw [List.length_append, List.length_take]
    omega
  · rw [List.length_take]
    omega

theorem writeBlocks_of_not_mem (data : List UInt8) {b : ℕ} : ∀ (bs : List ℕ) (i : ℕ) (d : Disk),
    b ∉ bs → writeBlocks data i bs d b = d b
  | [], _, _, _ => rfl
  | c :: bs, i, d, h => by
      rw [List.mem_cons, not_or] at h
      rw [writeBlocks, writeBlocks_of_not_mem data bs (i + 1) _ h.2]
      exact Function.update_of_ne h.1 _ _

theorem writeBlocks_getD (data : List UInt8) : ∀ (bs : List ℕ) (i m : ℕ) (d : Disk), bs.Nodup →
    m < bs.length → writeBlocks data i bs d (bs.getD m 0) = sectorOf (chunk data (i + m))
  | [], _, m, _, _, h => by simp at h
  | c :: bs, i, m, d, hnd, h => by
      obtain ⟨hc, hnd⟩ := List.nodup_cons.1 hnd
      rw [writeBlocks]
      cases m with
      | zero =>
          rw [List.getD_cons_zero, writeBlocks_of_not_mem data bs _ _ hc, Nat.add_zero]
          exact Function.update_self _ _ _
      | succ m =>
          rw [List.getD_cons_succ, writeBlocks_getD data bs (i + 1) m _ hnd
            (by simpa using h)]
          congr 2
          omega

theorem block_fileInode (size : ℕ) {bs : List ℕ} (h : bs.length ≤ 30) (m : ℕ) :
    (fileInode size bs).block m = UInt32.ofNat (bs.getD m 0) := by
  unfold Inode.block
  split_ifs with hm
  · rfl
  · rw [List.getD_eq_default _ _ (by simp only [DIRECT_BLOCKS] at hm; omega)]
    rfl

/-- What storing leaves: the inode with its blocks, the data in them, and nothing else
changed. -/
structure Stored (d d' : Disk) (k : ℕ) (bs : List ℕ) (data : List UInt8) : Prop where
  inode : inodeAt d' k = fileInode data.length bs
  others : ∀ i < 64, i ≠ k → inodeAt d' i = inodeAt d i
  data : ∀ m < bs.length, d' (bs.getD m 0) = sectorOf (chunk data m)
  frame : ∀ b, b < 1 ∨ 17 ≤ b → b ∉ bs → d' b = d b

theorem storeFile_spec {d : Disk} {k : ℕ} {bs : List ℕ} (hk : k < 64) (ha : Assignable d k bs)
    (data : List UInt8) : Stored d (storeFile d k bs data) k bs data := by
  unfold storeFile
  rw [writeInode_eq_put]
  refine ⟨inodeAt_putInode_same _ _ _, ?_, ?_, ?_⟩
  · intro i hi hik
    rw [inodeAt_putInode_ne _ _ hik]
    unfold inodeAt
    rw [writeBlocks_of_not_mem]
    intro hmem
    have := (ha.range _ hmem).1
    simp only [inodeSector] at this
    omega
  · intro m hm
    have hmem : bs.getD m 0 ∈ bs := by
      rw [List.getD_eq_getElem _ _ hm]
      exact List.getElem_mem hm
    rw [putInode_data _ _ hk (Or.inr (ha.range _ hmem).1), writeBlocks_getD data bs 0 m d ha.nodup hm,
      Nat.zero_add]
  · intro b hb hmem
    rw [putInode_data _ _ hk hb, writeBlocks_of_not_mem data bs 0 d hmem]

namespace Stored

variable {d d' : Disk} {k : ℕ} {bs : List ℕ} {data : List UInt8}

theorem toNat_block (hs : Stored d d' k bs data) (ha : Assignable d k bs) (hlen : bs.length ≤ 30)
    (m : ℕ) : ((inodeAt d' k).block m).toNat = bs.getD m 0 := by
  rw [hs.inode, block_fileInode _ hlen, UInt32.toNat_ofNat']
  apply Nat.mod_eq_of_lt
  by_cases hm : m < bs.length
  · have := (ha.range _ (List.getElem_mem hm)).2
    rw [List.getD_eq_getElem _ _ hm]
    omega
  · rw [List.getD_eq_default _ _ (by omega)]
    decide

theorem block_ne_zero (hs : Stored d d' k bs data) (ha : Assignable d k bs) (hlen : bs.length ≤ 30)
    {m : ℕ} : (inodeAt d' k).block m ≠ 0 ↔ m < bs.length := by
  have hb := hs.toNat_block ha hlen m
  constructor
  · intro hne
    by_contra hm
    rw [List.getD_eq_default _ _ (by omega)] at hb
    exact hne (UInt32.toNat.inj hb)
  · intro hm h0
    have hge := (ha.range _ (List.getElem_mem hm)).1
    rw [h0, List.getD_eq_getElem _ _ hm] at hb
    have : (0 : UInt32).toNat = 0 := rfl
    omega

theorem isUsed (hs : Stored d d' k bs data) : (inodeAt d' k).isUsed = true := by
  have hf : (INODE_USED &&& INODE_USED != 0) = true := by decide
  rw [hs.inode]
  exact hf

theorem isDir (hs : Stored d d' k bs data) : (inodeAt d' k).isDir = false := by
  have hf : (INODE_USED &&& INODE_DIR != 0) = false := by decide
  rw [hs.inode]
  exact hf

/-- The blocks of the other inodes are not touched. -/
theorem not_mem_of_other (h : BlockInv d) (hk : k < 64) (ha : Assignable d k bs) {i j : ℕ}
    (hi : i < 64) (hik : i ≠ k) (hu : (inodeAt d i).isUsed = true) (hj : j < 30)
    (hne : (inodeAt d i).block j ≠ 0) : ((inodeAt d i).block j).toNat ∉ bs := by
  intro hmem
  obtain ⟨huk, j', hj', he⟩ | hfree := ha.own _ hmem
  · exact hik (h.unique i hi hu j hj hne k hk huk j' hj' (UInt32.toNat.inj he)).1.symm
  · exact hfree ⟨i, hi, hu, j, hj, rfl⟩

theorem sameNode (hs : Stored d d' k bs data) (h : BlockInv d) (hk : k < 64)
    (ha : Assignable d k bs) {i : ℕ} (hi : i < 64) (hu : (inodeAt d i).isUsed = true)
    (hik : i ≠ k) : SameNode d d' i := by
  refine ⟨hs.others i hi hik, fun m hm hne => ?_⟩
  exact hs.frame _ (Or.inr (h.range i hi hu m hm hne).1) (not_mem_of_other h hk ha hi hik hu hm hne)

theorem sameTree (hs : Stored d d' k bs data) (h : BlockInv d) (hk : k < 64)
    (hfile : (inodeAt d k).isUsed = true → (inodeAt d k).isDir = false)
    (ha : Assignable d k bs) : SameTree d d' := by
  have hnot : ∀ i, IsDirectory d i → i ≠ k := by
    rintro i hi rfl
    have := hfile hi.used
    rw [hi.dir] at this
    cases this
  have hdirs : ∀ i, IsDirectory d' i ↔ IsDirectory d i := by
    intro i
    constructor
    · intro hi
      have hik : i ≠ k := by
        rintro rfl
        have := hs.isDir
        rw [hi.dir] at this
        cases this
      obtain ⟨hlt, hu, hd, ht⟩ := hi
      rw [hs.others i hlt hik] at hu hd ht
      exact ⟨hlt, hu, hd, ht⟩
    · intro hi
      exact (hs.sameNode h hk ha hi.lt hi.used (hnot i hi)).isDirectory hi
  refine ⟨hdirs, fun i hi j => ?_, fun i hi hu => ?_⟩
  · exact (hs.sameNode h hk ha hi.lt hi.used (hnot i hi)).slot hi j
  · by_cases hik : i = k
    · subst hik
      rw [hs.isDir]
      exact ⟨hs.isUsed, (hfile hu).symm⟩
    · rw [hs.others i hi hik]
      exact ⟨hu, rfl⟩

theorem blockInv (hs : Stored d d' k bs data) (h : BlockInv d) (hk : k < 64)
    (ha : Assignable d k bs) (hlen : bs.length ≤ 30) : BlockInv d' := by
  have hnew : ∀ j, (inodeAt d' k).block j ≠ 0 →
      ((inodeAt d' k).block j).toNat ∈ bs := by
    intro j hne
    have hj := (hs.block_ne_zero ha hlen).1 hne
    rw [hs.toNat_block ha hlen, List.getD_eq_getElem _ _ hj]
    exact List.getElem_mem hj
  constructor
  · intro i hi hu j hj hne
    by_cases hik : i = k
    · subst hik
      exact ha.range _ (hnew j hne)
    · rw [hs.others i hi hik] at hu hne ⊢
      exact h.range i hi hu j hj hne
  · intro i hi hu j hj hne i' hi' hu' j' hj' he
    by_cases hik : i = k
    · subst hik
      by_cases hik' : i' = i
      · -- both in the new inode: its blocks are distinct
        subst hik'
        have hjl := (hs.block_ne_zero ha hlen).1 hne
        have hjl' := (hs.block_ne_zero ha hlen).1 (he ▸ hne)
        have hnat := congrArg UInt32.toNat he
        rw [hs.toNat_block ha hlen, hs.toNat_block ha hlen, List.getD_eq_getElem _ _ hjl,
          List.getD_eq_getElem _ _ hjl'] at hnat
        exact ⟨rfl, (List.Nodup.getElem_inj_iff ha.nodup).1 hnat⟩
      · have hmem := hnew j hne
        rw [← he] at hmem hne
        rw [hs.others i' hi' hik'] at hu' hmem hne
        exact absurd hmem (not_mem_of_other h hk ha hi' hik' hu' hj' hne)
    · rw [hs.others i hi hik] at hu hne he
      by_cases hik' : i' = k
      · subst hik'
        have hmem := hnew j' (by rw [he]; exact hne)
        rw [he] at hmem
        exact absurd hmem (not_mem_of_other h hk ha hi hik hu hj hne)
      · rw [hs.others i' hi' hik'] at hu' he
        exact h.unique i hi hu j hj hne i' hi' hu' j' hj' he

theorem fsInv (hs : Stored d d' k bs data) (h : FsInv d) (hk : k < 64)
    (hfile : (inodeAt d k).isUsed = true → (inodeAt d k).isDir = false)
    (ha : Assignable d k bs) (hlen : bs.length ≤ 30) : FsInv d' := by
  refine ⟨?_, hs.blockInv h.blocks hk ha hlen, (hs.sameTree h.blocks hk hfile ha).treeInv h.tree⟩
  rw [hs.frame SUPERBLOCK_SECTOR (Or.inl (by decide))]
  · exact h.superblock
  · intro hmem
    have := (ha.range _ hmem).1
    simp only [SUPERBLOCK_SECTOR] at this
    omega

/-- The stored file holds the data. -/
theorem nodeRep (hs : Stored d d' k bs data) (hk : k < 64) (ha : Assignable d k bs)
    (hlen : bs.length = (data.length + 511) / 512) (hsize : data.length ≤ 30 * 512) :
    NodeRep d' k (.file data) := by
  have h30 : bs.length ≤ 30 := by omega
  refine ⟨⟨hk, hs.isUsed, hs.isDir⟩, ?_, hsize, ?_, ?_⟩
  · rw [hs.inode]
    exact Nat.mod_eq_of_lt (by omega)
  · intro m hm
    exact (hs.block_ne_zero ha h30).2 (by omega)
  · intro m q hq hm
    have hml : m < bs.length := by omega
    rw [hs.toNat_block ha h30, hs.data m hml]
    unfold sectorOf chunk
    rw [Buf.get_ofFn _ hq, List.getD_eq_getElem?_getD, List.getElem?_take, if_pos hq,
      List.getElem?_drop, List.getD_eq_getElem?_getD, Nat.mul_comm m 512]

end Stored

end NosmeriOs.HostTool
