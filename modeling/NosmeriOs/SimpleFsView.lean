import NosmeriOs.SimpleFs
import Mathlib.Data.Fintype.EquivFin
import Mathlib.Data.Fintype.Prod

/-! # The decoded view of a SimpleFS disk

What the scans and the sector updates of `SimpleFs.lean` mean for the inodes and directory
entries they address:

* packing: storing an inode or an entry changes that one and no other
  (`getInode_setInode`, `getEntry_setEntry`);
* `inodeAt d i` and `entryAt d b j` are the inode `i` and the entry `j` of the table in
  sector `b`; `inodeAt_update`, `entryAt_update` say how one sector write changes them;
* scans: `findFreeInode` is the first inode not in use, `isBlockUsed` says that some slot of
  a used inode holds the block, and `findFreeDataBlock` returns a block in no slot of a used
  inode, inside the disk, because the table has fewer slots than the candidates tried. -/

namespace NosmeriOs.SimpleFs

open Bytes

/-! ### Packing -/

theorem Inode.block_lt (n : Inode) {i : ℕ} (h : i < 30) : n.block i = n.blocks ⟨i, h⟩ := by
  unfold Inode.block
  exact dif_pos h

theorem Inode.ext_block {m n : Inode} (hs : m.size = n.size) (hf : m.flags = n.flags)
    (hb : ∀ i < 30, m.block i = n.block i) : m = n := by
  cases m with
  | mk ms mf mb =>
      cases n with
      | mk ns nf nb =>
          simp only at hs hf
          subst hs hf
          congr 1
          funext i
          have := hb i.val i.isLt
          rwa [Inode.block_lt _ i.isLt, Inode.block_lt _ i.isLt] at this

theorem Inode.block_setBlock (n : Inode) (b : UInt32) {i : ℕ} (j : ℕ) (hi : i < 30) :
    (n.setBlock i b).block j = if j = i then b else n.block j := by
  by_cases hj : j < 30
  · rw [Inode.block_lt _ hj, Inode.block_lt _ hj]
    rfl
  · have h1 : j ≠ i := by omega
    rw [if_neg h1]
    unfold Inode.block
    rw [dif_neg (by simpa [DIRECT_BLOCKS] using hj), dif_neg (by simpa [DIRECT_BLOCKS] using hj)]

@[simp] theorem Inode.size_setBlock (n : Inode) (i : ℕ) (b : UInt32) :
    (n.setBlock i b).size = n.size := rfl

@[simp] theorem Inode.flags_setBlock (n : Inode) (i : ℕ) (b : UInt32) :
    (n.setBlock i b).flags = n.flags := rfl

@[simp] theorem Inode.isUsed_setBlock (n : Inode) (i : ℕ) (b : UInt32) :
    (n.setBlock i b).isUsed = n.isUsed := rfl

@[simp] theorem Inode.isDir_setBlock (n : Inode) (i : ℕ) (b : UInt32) :
    (n.setBlock i b).isDir = n.isDir := rfl

@[simp] theorem Inode.block_fresh (flags : UInt32) (i : ℕ) : (Inode.fresh flags).block i = 0 := by
  unfold Inode.block
  split_ifs <;> rfl

theorem word_setInode_same (s : Sector) {i : ℕ} (hi : i < 4) (n : Inode) {q : ℕ} (hq : q < 32) :
    (setInode s i n).word (128 * i + 4 * q) = n.field q := by
  apply Buf.word_eq_of_get
  intro k hk
  have hb := Buf.get_blit_in s (128 * i) 128 n.byteAt (k := 4 * q + k) (by omega)
    (by omega)
  rw [Nat.add_assoc, setInode, hb, Inode.byteAt, show (4 * q + k) / 4 = q by omega,
    show (4 * q + k) % 4 = k by omega]

theorem getInode_setInode_same (s : Sector) {i : ℕ} (hi : i < 4) (n : Inode) :
    getInode (setInode s i n) i = n := by
  apply Inode.ext_block
  · have := word_setInode_same s hi n (q := 0) (by omega)
    simpa [getInode, Inode.field] using this
  · have := word_setInode_same s hi n (q := 1) (by omega)
    simpa [getInode, Inode.field] using this
  · intro j hj
    have := word_setInode_same s hi n (q := j + 2) (by omega)
    rw [Inode.block_lt _ hj]
    show (setInode s i n).word (128 * i + 8 + 4 * j) = n.block j
    rw [show 128 * i + 8 + 4 * j = 128 * i + 4 * (j + 2) by ring, this]
    rfl

theorem getInode_setInode_ne (s : Sector) {i j : ℕ} (hij : j ≠ i) (n : Inode) :
    getInode (setInode s i n) j = getInode s j := by
  have hw : ∀ q < 32, (setInode s i n).word (128 * j + 4 * q) = s.word (128 * j + 4 * q) := by
    intro q hq
    apply Buf.word_congr
    intro k hk
    rw [setInode, Buf.get_blit_out]
    omega
  apply Inode.ext_block
  · simpa [getInode] using hw 0 (by omega)
  · simpa [getInode] using hw 1 (by omega)
  · intro q hq
    rw [Inode.block_lt _ hq, Inode.block_lt _ hq]
    show (setInode s i n).word (128 * j + 8 + 4 * q) = s.word (128 * j + 8 + 4 * q)
    rw [show 128 * j + 8 + 4 * q = 128 * j + 4 * (q + 2) by ring]
    exact hw (q + 2) (by omega)

theorem DirEntry.ext_get {e f : DirEntry} (hi : e.inodeIdx = f.inodeIdx)
    (hn : ∀ k < 28, e.filename.get k = f.filename.get k) : e = f := by
  cases e with
  | mk ei en =>
      cases f with
      | mk fi fn =>
          simp only at hi hn
          rw [hi, Buf.ext (n := MAX_FILENAME) hn]

theorem filename_getEntry (s : Sector) (i : ℕ) {k : ℕ} (hk : k < 28) :
    (getEntry s i).filename.get k = s.get (32 * i + 4 + k) :=
  Buf.get_ofFn (n := MAX_FILENAME) (fun k => s.get (32 * i + 4 + k)) hk

theorem getEntry_setEntry_same (s : Sector) {i : ℕ} (hi : i < 16) (e : DirEntry) :
    getEntry (setEntry s i e) i = e := by
  have hb : ∀ k < 32, (setEntry s i e).get (32 * i + k) = e.byteAt k := fun k hk =>
    Buf.get_blit_in s (32 * i) 32 e.byteAt hk (by omega)
  apply DirEntry.ext_get
  · apply Buf.word_eq_of_get
    intro k hk
    rw [hb k (by omega), DirEntry.byteAt, if_pos hk]
  · intro k hk
    rw [filename_getEntry _ _ hk, Nat.add_assoc, hb _ (by omega), DirEntry.byteAt,
      if_neg (by omega), Nat.add_sub_cancel_left]

theorem getEntry_setEntry_ne (s : Sector) {i j : ℕ} (hij : j ≠ i) (e : DirEntry) :
    getEntry (setEntry s i e) j = getEntry s j := by
  have hb : ∀ k < 32, (setEntry s i e).get (32 * j + k) = s.get (32 * j + k) := by
    intro k hk
    rw [setEntry, Buf.get_blit_out]
    omega
  apply DirEntry.ext_get
  · exact Buf.word_congr fun k hk => hb k (by omega)
  · intro k hk
    rw [filename_getEntry _ _ hk, filename_getEntry _ _ hk, Nat.add_assoc, hb _ (by omega)]

theorem getSuperblock_blit (sb : Superblock) :
    getSuperblock (Buf.zero.blit 0 16 sb.byteAt) = sb := by
  have hw : ∀ q < 4, (Buf.zero.blit 0 16 sb.byteAt : Sector).word (4 * q) = sb.field q := by
    intro q hq
    apply Buf.word_eq_of_get
    intro k hk
    have := Buf.get_blit_in (Buf.zero : Sector) 0 16 sb.byteAt (k := 4 * q + k) (by omega)
      (by omega)
    rw [Nat.zero_add, Superblock.byteAt, show (4 * q + k) / 4 = q by omega,
      show (4 * q + k) % 4 = k by omega] at this
    exact this
  have h0 := hw 0 (by omega)
  have h1 := hw 1 (by omega)
  have h2 := hw 2 (by omega)
  have h3 := hw 3 (by omega)
  cases sb
  simp only [getSuperblock, Superblock.mk.injEq]
  exact ⟨h0, h1, h2, h3⟩

/-! ### Inodes and entries of a disk -/

/-- The sector that holds inode `i`. -/
def inodeSector (i : ℕ) : ℕ := i / 4 + 1

/-- Inode `i` of the disk. -/
def inodeAt (d : Disk) (i : ℕ) : Inode := getInode (d (inodeSector i)) (i % 4)

/-- Entry `j` of the directory table in sector `b`. -/
def entryAt (d : Disk) (b j : ℕ) : DirEntry := getEntry (d b) j

/-- The disk after storing `n` as inode `i`. -/
def putInode (d : Disk) (i : ℕ) (n : Inode) : Disk :=
  Function.update d (inodeSector i) (setInode (d (inodeSector i)) (i % 4) n)

theorem readInode_eq (io : Io) (k : UInt32) : readInode io k = inodeAt io.disk k.toNat := rfl

theorem writeInode_eq (io : Io) (k : UInt32) (n : Inode) :
    writeInode io k n = ataWriteSector io .inodeTable (inodeSector k.toNat)
      (setInode (io.disk (inodeSector k.toNat)) (k.toNat % 4) n) := rfl

theorem writeInode_disk (io : Io) (k : UInt32) (n : Inode) :
    (writeInode io k n).disk = putInode io.disk k.toNat n := rfl

@[simp] theorem inodeAt_putInode_same (d : Disk) (i : ℕ) (n : Inode) :
    inodeAt (putInode d i n) i = n := by
  rw [inodeAt, putInode, Function.update_self, getInode_setInode_same _ (Nat.mod_lt _ (by omega))]

theorem inodeAt_putInode_ne (d : Disk) {i j : ℕ} (n : Inode) (h : j ≠ i) :
    inodeAt (putInode d i n) j = inodeAt d j := by
  by_cases hs : inodeSector j = inodeSector i
  · rw [inodeAt, inodeAt, putInode, hs, Function.update_self, getInode_setInode_ne]
    unfold inodeSector at hs
    omega
  · rw [inodeAt, inodeAt, putInode, Function.update_of_ne hs]

theorem inodeAt_putInode (d : Disk) (i j : ℕ) (n : Inode) :
    inodeAt (putInode d i n) j = if j = i then n else inodeAt d j := by
  split_ifs with h
  · rw [h, inodeAt_putInode_same]
  · exact inodeAt_putInode_ne d n h

/-- Storing an inode leaves the data sectors alone. -/
theorem putInode_data (d : Disk) {i b : ℕ} (n : Inode) (hi : i < 64) (hb : b < 1 ∨ 17 ≤ b) :
    putInode d i n b = d b := by
  rw [putInode, Function.update_of_ne]
  unfold inodeSector
  omega

theorem entryAt_putInode (d : Disk) {i b j : ℕ} (n : Inode) (hi : i < 64) (hb : 17 ≤ b) :
    entryAt (putInode d i n) b j = entryAt d b j := by
  rw [entryAt, entryAt, putInode_data d n hi (Or.inr hb)]

/-- Writing a data sector leaves the inodes alone. -/
theorem inodeAt_update (d : Disk) {b i : ℕ} (s : Sector) (hi : i < 64) (hb : 17 ≤ b) :
    inodeAt (Function.update d b s) i = inodeAt d i := by
  rw [inodeAt, inodeAt, Function.update_of_ne]
  unfold inodeSector
  omega

theorem entryAt_update_ne (d : Disk) {b c j : ℕ} (s : Sector) (h : c ≠ b) :
    entryAt (Function.update d b s) c j = entryAt d c j := by
  rw [entryAt, entryAt, Function.update_of_ne h]

theorem entryAt_update_same (d : Disk) (b j : ℕ) (s : Sector) :
    entryAt (Function.update d b s) b j = getEntry s j := by
  rw [entryAt, Function.update_self]

/-! ### The inode scan -/

/-- Positions in the inode table, in scan order, are the inode numbers in order. -/
theorem inodeSector_pos {sec i : ℕ} (h1 : 1 ≤ sec) (hi : i < 4) :
    inodeSector ((sec - 1) * 4 + i) = sec ∧ ((sec - 1) * 4 + i) % 4 = i := by
  unfold inodeSector
  omega

theorem inodeAt_pos (d : Disk) {sec i : ℕ} (h1 : 1 ≤ sec) (hi : i < 4) :
    getInode (d sec) i = inodeAt d ((sec - 1) * 4 + i) := by
  obtain ⟨hs, hm⟩ := inodeSector_pos h1 hi
  rw [inodeAt, hs, hm]

theorem findFreeInode_none {io : Io} (h : findFreeInode io = none) :
    ∀ i < 64, (inodeAt io.disk i).isUsed = true := by
  intro i hi
  unfold findFreeInode at h
  rw [List.findSome?_eq_none_iff] at h
  have h1 := h (i / 4 + 1) (by
    simp only [INODE_START_SECTOR, INODE_SECTORS, INODE_COUNT, INODES_PER_SECTOR, List.mem_range'_1]
    omega)
  rw [List.findSome?_eq_none_iff] at h1
  have h2 := h1 (i % 4) (by
    simp only [INODES_PER_SECTOR, List.mem_range]
    omega)
  by_contra hu
  have hu' : (getInode (ataReadSector io (i / 4 + 1)) (i % 4)).isUsed = false := by
    simpa [inodeAt, inodeSector, ataReadSector] using hu
  rw [hu'] at h2
  simp at h2

theorem findFreeInode_some {io : Io} {sec i : ℕ} (h : findFreeInode io = some (sec, i)) :
    1 ≤ sec ∧ sec < 17 ∧ i < 4 ∧ (getInode (io.disk sec) i).isUsed = false := by
  unfold findFreeInode at h
  obtain ⟨sec', hs, h1⟩ := List.exists_of_findSome?_eq_some h
  obtain ⟨i', hi, h2⟩ := List.exists_of_findSome?_eq_some h1
  simp only [INODE_START_SECTOR, INODE_SECTORS, INODE_COUNT, INODES_PER_SECTOR,
    List.mem_range'_1, List.mem_range] at hs hi
  split_ifs at h2 with hu
  obtain ⟨rfl, rfl⟩ := Prod.mk.inj (Option.some.inj h2)
  refine ⟨hs.1, by omega, hi, ?_⟩
  simpa [ataReadSector] using hu

/-- What `allocate_free_inode` does: it fails exactly when every inode is in use, otherwise it
stores a fresh inode over one that is not. -/
theorem allocateFreeInode_cases (io : Io) (flags : UInt32) :
    (allocateFreeInode io flags = (-1, io) ∧ ∀ i < 64, (inodeAt io.disk i).isUsed = true) ∨
    ∃ k < 64, (inodeAt io.disk k).isUsed = false ∧
      allocateFreeInode io flags = ((k : ℤ), ataWriteSector io .inodeTable (inodeSector k)
        (setInode (io.disk (inodeSector k)) (k % 4) (Inode.fresh flags))) := by
  cases hf : findFreeInode io with
  | none =>
      left
      refine ⟨?_, findFreeInode_none hf⟩
      unfold allocateFreeInode
      rw [hf]
  | some p =>
      obtain ⟨sec, i⟩ := p
      right
      obtain ⟨h1, h2, h3, h4⟩ := findFreeInode_some hf
      obtain ⟨hs, hm⟩ := inodeSector_pos h1 h3
      refine ⟨(sec - 1) * 4 + i, by omega, ?_, ?_⟩
      · rw [← inodeAt_pos _ h1 h3]
        exact h4
      · unfold allocateFreeInode
        rw [hf, hs, hm]
        rfl

/-! ### The block scan -/

/-- Some slot of a used inode holds `b`. -/
def Owned (d : Disk) (b : UInt32) : Prop :=
  ∃ i < 64, (inodeAt d i).isUsed = true ∧ ∃ j < 30, (inodeAt d i).block j = b

theorem isBlockUsed_iff (io : Io) (b : UInt32) : isBlockUsed io b = true ↔ Owned io.disk b := by
  unfold isBlockUsed Owned
  simp only [List.any_eq_true, Bool.and_eq_true, beq_iff_eq, INODE_START_SECTOR, INODE_SECTORS,
    INODE_COUNT, INODES_PER_SECTOR, DIRECT_BLOCKS, List.mem_range'_1, List.mem_range,
    ataReadSector]
  constructor
  · rintro ⟨sec, hs, i, hi, hu, j, hj, hb⟩
    rw [inodeAt_pos _ hs.1 hi] at hu hb
    exact ⟨(sec - 1) * 4 + i, by omega, hu, j, hj, hb⟩
  · rintro ⟨i, hi, hu, j, hj, hb⟩
    exact ⟨i / 4 + 1, by omega, i % 4, by omega, hu, j, hj, hb⟩

/-- The bounded search stops at an unused candidate if there is one within the bound. -/
theorem findFreeFrom_spec (used : UInt32 → Bool) : ∀ (fuel : ℕ) (c : UInt32),
    (∃ k < fuel, used (c + UInt32.ofNat k) = false) →
    used (findFreeFrom used fuel c) = false ∧
      ∃ k < fuel, findFreeFrom used fuel c = c + UInt32.ofNat k
  | 0, c, h => by
      obtain ⟨k, hk, _⟩ := h
      omega
  | fuel + 1, c, h => by
      obtain ⟨k, hk, hu⟩ := h
      unfold findFreeFrom
      cases hc : used c with
      | false =>
          rw [if_neg (by simp)]
          exact ⟨hc, 0, by omega, by simp⟩
      | true =>
          rw [if_pos rfl]
          cases k with
          | zero => simp [hc] at hu
          | succ k =>
              have e : ∀ m : ℕ, c + 1 + UInt32.ofNat m = c + UInt32.ofNat (m + 1) := by
                intro m
                rw [UInt32.ofNat_add, UInt32.add_assoc, UInt32.add_comm 1 (UInt32.ofNat m)]
                rfl
              obtain ⟨h1, m, hm, h2⟩ := findFreeFrom_spec used fuel (c + 1)
                ⟨k, by omega, by rw [e]; exact hu⟩
              exact ⟨h1, m + 1, by omega, by rw [h2, e]⟩

/-- Pigeonhole: among more candidates than slots, one is in no slot. -/
theorem exists_not_slot {σ : Type} [Fintype σ] (slot : σ → UInt32) (c : UInt32) {n : ℕ}
    (hn : Fintype.card σ < n) (h32 : n ≤ 2 ^ 32) :
    ∃ k < n, ∀ x, slot x ≠ c + UInt32.ofNat k := by
  by_contra hall
  push Not at hall
  choose f hf using fun k : Fin n => hall k.val k.isLt
  have hinj : Function.Injective f := by
    intro k m hkm
    have h1 : c + UInt32.ofNat k = c + UInt32.ofNat m := by rw [← hf k, ← hf m, hkm]
    have h2 : UInt32.ofNat k.val = UInt32.ofNat m.val := by
      have := congrArg (fun w => w - c) h1
      simpa [UInt32.add_comm c] using this
    have h3 := congrArg UInt32.toNat h2
    rw [UInt32.toNat_ofNat', UInt32.toNat_ofNat', Nat.mod_eq_of_lt (by omega),
      Nat.mod_eq_of_lt (by omega)] at h3
    exact Fin.ext h3
  have := Fintype.card_le_of_injective f hinj
  simp only [Fintype.card_fin] at this
  omega

theorem findFreeDataBlock_spec (io : Io) (sb : Superblock) :
    isBlockUsed io (findFreeDataBlock io sb) = false ∧
      ∃ k < 1921, findFreeDataBlock io sb = sb.dataBlockStart + UInt32.ofNat k := by
  apply findFreeFrom_spec
  obtain ⟨k, hk, h⟩ := exists_not_slot
    (fun p : Fin 64 × Fin 30 => (inodeAt io.disk p.1).block p.2) sb.dataBlockStart (n := 1921)
    (by simp) (by norm_num)
  refine ⟨k, hk, ?_⟩
  rw [Bool.eq_false_iff, Ne, isBlockUsed_iff]
  rintro ⟨i, hi, _, j, hj, hb⟩
  exact h (⟨i, hi⟩, ⟨j, hj⟩) hb

/-- The fuel of the block search always suffices: its result is a block in no slot of a used
inode. -/
theorem isBlockUsed_findFreeDataBlock (io : Io) (sb : Superblock) :
    isBlockUsed io (findFreeDataBlock io sb) = false :=
  (findFreeDataBlock_spec io sb).1

theorem not_owned_findFreeDataBlock (io : Io) (sb : Superblock) :
    ¬ Owned io.disk (findFreeDataBlock io sb) := by
  rw [← isBlockUsed_iff, isBlockUsed_findFreeDataBlock]
  simp

/-- On a formatted disk the block found lies in the data area, inside the disk. -/
theorem findFreeDataBlock_range (io : Io) {sb : Superblock} (hsb : sb.dataBlockStart = 17) :
    17 ≤ (findFreeDataBlock io sb).toNat ∧ (findFreeDataBlock io sb).toNat < 32768 := by
  obtain ⟨k, hk, h⟩ := (findFreeDataBlock_spec io sb).2
  rw [h, hsb, UInt32.toNat_add, UInt32.toNat_ofNat', Nat.mod_eq_of_lt (a := k) (by omega)]
  have : (17 : UInt32).toNat = 17 := rfl
  omega

end NosmeriOs.SimpleFs
