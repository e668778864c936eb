import NosmeriOs.SimpleFsRefine

/-! # Which inode, slot and block the searches pick

The calls that create something search the inode table, a directory table and the data
blocks.  The earlier modules only say that what they find is free; here the searches are
brought to one form, *the first free one*.

* **Inodes.**  `firstFree d` is the first inode not in use; `allocate_free_inode` takes it.
* **Slots.**  `firstEmpty d i` is the first empty slot of directory `i`; `add_dir_entry`
  fills it.
* **Creation.**  `simplefsCreate_eq_link` is `simplefs_create` with the inode and the slot
  made explicit. -/

namespace NosmeriOs.SimpleFs

open Bytes

/-! ### Inodes -/

/-- The first inode that is not in use. -/
def firstFree (d : Disk) : Option ℕ := (List.range 64).find? fun k => !(inodeAt d k).isUsed

theorem firstFree_eq_some_iff {d : Disk} {k : ℕ} : firstFree d = some k ↔
    k < 64 ∧ (inodeAt d k).isUsed = false ∧ ∀ i < k, (inodeAt d i).isUsed = true := by
  rw [firstFree, List.find?_range_eq_some]
  simp only [Bool.not_eq_eq_eq_not, Bool.not_true, List.mem_range, Bool.not_not]
  tauto

theorem firstFree_eq_none_iff {d : Disk} :
    firstFree d = none ↔ ∀ k < 64, (inodeAt d k).isUsed = true := by
  rw [firstFree, List.find?_range_eq_none]
  simp

theorem exists_free_iff {d : Disk} :
    (∃ k < 64, (inodeAt d k).isUsed = false) ↔ ∃ k, firstFree d = some k := by
  cases hf : firstFree d with
  | none =>
      rw [firstFree_eq_none_iff] at hf
      constructor
      · rintro ⟨k, hk, hfree⟩
        rw [hf k hk] at hfree
        cases hfree
      · rintro ⟨k, hk⟩
        cases hk
  | some k =>
      rw [firstFree_eq_some_iff] at hf
      exact ⟨fun _ => ⟨k, rfl⟩, fun _ => ⟨k, hf.1, hf.2.1⟩⟩

/-- The positions in the inode table, in the order of the nested loops. -/
theorem inode_positions : (List.range' INODE_START_SECTOR INODE_SECTORS).flatMap
    (fun sec => (List.range INODES_PER_SECTOR).map fun i => (sec, i)) =
      (List.range 64).map fun k => (inodeSector k, k % 4) := by
  decide

theorem findSome?_flatMap {α β γ : Type} (f : β → Option γ) (g : α → List β) : ∀ l : List α,
    (l.flatMap g).findSome? f = l.findSome? fun a => (g a).findSome? f
  | [] => rfl
  | a :: l => by
      rw [List.flatMap_cons, List.findSome?_append, findSome?_flatMap f g l, List.findSome?_cons]
      cases (g a).findSome? f <;> rfl

theorem findSome?_ite {α β : Type} (p : α → Bool) (f : α → β) : ∀ l : List α,
    (l.findSome? fun a => if p a then some (f a) else none) = (l.find? p).map f
  | [] => rfl
  | a :: l => by
      rw [List.findSome?_cons, List.find?_cons, findSome?_ite p f l]
      cases p a <;> rfl

theorem findFreeInode_eq (io : Io) :
    findFreeInode io = (firstFree io.disk).map fun k => (inodeSector k, k % 4) := by
  have hflat : findFreeInode io =
      ((List.range' INODE_START_SECTOR INODE_SECTORS).flatMap fun sec =>
        (List.range INODES_PER_SECTOR).map fun i => (sec, i)).findSome? fun p : ℕ × ℕ =>
          if !(getInode (ataReadSector io p.1) p.2).isUsed then some p else none := by
    rw [findSome?_flatMap]
    simp only [List.findSome?_map]
    rfl
  rw [hflat, inode_positions, List.findSome?_map]
  exact findSome?_ite (fun k => !(inodeAt io.disk k).isUsed) _ _

/-- `allocate_free_inode` takes the first free inode. -/
theorem allocateFreeInode_of_some {io : Io} {k : ℕ} (hf : firstFree io.disk = some k)
    (flags : UInt32) : allocateFreeInode io flags = ((k : ℤ), io.take k flags) := by
  have he : (inodeSector k - INODE_START_SECTOR) * INODES_PER_SECTOR + k % 4 = k := by
    simp only [inodeSector, INODE_START_SECTOR, INODES_PER_SECTOR]
    omega
  unfold allocateFreeInode
  rw [findFreeInode_eq, hf]
  simp only [Option.map_some, he]
  rfl

/-! ### Slots -/

/-- The first empty slot of directory `i`. -/
def firstEmpty (d : Disk) (i : ℕ) : Option ℕ :=
  (List.range 16).find? fun j => !(slot d i j).isPresent

theorem firstEmpty_eq_some_iff {d : Disk} {i j : ℕ} : firstEmpty d i = some j ↔
    j < 16 ∧ (slot d i j).isPresent = false ∧ ∀ j' < j, (slot d i j').isPresent = true := by
  rw [firstEmpty, List.find?_range_eq_some]
  simp only [Bool.not_eq_eq_eq_not, Bool.not_true, List.mem_range, Bool.not_not]
  tauto

theorem firstEmpty_eq_none_iff {d : Disk} {i : ℕ} :
    firstEmpty d i = none ↔ ∀ j < 16, (slot d i j).isPresent = true := by
  rw [firstEmpty, List.find?_range_eq_none]
  simp

theorem firstEmpty_congr {d d' : Disk} {i : ℕ} (h : ∀ j, slot d' i j = slot d i j) :
    firstEmpty d' i = firstEmpty d i := by
  simp only [firstEmpty, h]

theorem addDirEntry_of_none {io : Io} {i : ℕ} (h : firstEmpty io.disk i = none) (k : UInt32)
    (s : CStr) : addDirEntry io ((inodeAt io.disk i).block 0) k s = (-1, io) := by
  unfold firstEmpty at h
  rw [addDirEntry_eq, h]

/-- `add_dir_entry` fills the first empty slot. -/
theorem addDirEntry_of_some {io : Io} {i j : ℕ} (h : firstEmpty io.disk i = some j) (k : UInt32)
    (s : CStr) : addDirEntry io ((inodeAt io.disk i).block 0) k s =
      (0, io.write (linkWrite io.disk i j k s)) := by
  unfold firstEmpty at h
  rw [addDirEntry_eq, h]

/-! ### Creation -/

section creation

variable {io : Io} {p : UInt32} {name : CStr} {k : ℕ}

theorem simplefsCreate_of_free (h : FsInv io.disk) (hp : IsDirectory io.disk p.toNat)
    (hname : NameOk name) (habs : Absent io.disk p.toNat name) (hk : firstFree io.disk = some k)
    {r : ℤ} {io' : Io} (hadd : addDirEntry (io.take k INODE_USED)
      ((inodeAt io.disk p.toNat).block 0) (UInt32.ofNat k) name = (r, io')) :
    simplefsCreate io p name = (if r ≠ 0 then -1 else 0, io') := by
  have hlen : ¬ (MAX_FILENAME ≤ name.strlen ∨ name.strlen = 0) := by
    have := hname.1
    have := hname.2
    simp only [MAX_FILENAME]
    omega
  have hlook := (simplefsLookup_eq_neg_one_iff h.tree hp name).2 habs
  rw [simplefsCreate_eq, if_neg hlen, if_neg (by simp [hp.dir]), if_neg (by simp [hlook]),
    allocateFreeInode_of_some hk, if_neg (by simp only; omega), cUInt_natCast, hadd]
  by_cases hr : r = 0
  · simp [hr]
  · simp [hr]

/-- `simplefs_create` in a directory with an empty slot, inode and slot made explicit. -/
theorem simplefsCreate_eq_link (h : FsInv io.disk) (hp : IsDirectory io.disk p.toNat)
    (hname : NameOk name) (habs : Absent io.disk p.toNat name) (hk : firstFree io.disk = some k)
    {j : ℕ} (hj : firstEmpty io.disk p.toNat = some j) :
    simplefsCreate io p name = (0, (io.take k INODE_USED).write
      (linkWrite (io.take k INODE_USED).disk p.toNat j (UInt32.ofNat k) name)) := by
  obtain ⟨hk64, hfree, -⟩ := firstFree_eq_some_iff.1 hk
  have hs := sameTree_take h hk64 hfree INODE_USED (by decide)
  have hslot : firstEmpty (io.take k INODE_USED).disk p.toNat = some j := by
    rw [firstEmpty_congr (hs.slots _ hp)]
    exact hj
  have hadd := addDirEntry_of_some hslot (UInt32.ofNat k) name
  rw [← block_take hp hfree] at hadd
  rw [simplefsCreate_of_free h hp hname habs hk hadd]
  rfl

/-- `simplefs_create` in a full directory: the inode has been taken by then. -/
theorem simplefsCreate_of_full (h : FsInv io.disk) (hp : IsDirectory io.disk p.toNat)
    (hname : NameOk name) (habs : Absent io.disk p.toNat name) (hk : firstFree io.disk = some k)
    (hj : firstEmpty io.disk p.toNat = none) :
    simplefsCreate io p name = (-1, io.take k INODE_USED) := by
  obtain ⟨hk64, hfree, -⟩ := firstFree_eq_some_iff.1 hk
  have hs := sameTree_take h hk64 hfree INODE_USED (by decide)
  have hslot : firstEmpty (io.take k INODE_USED).disk p.toNat = none := by
    rw [firstEmpty_congr (hs.slots _ hp)]
    exact hj
  have hadd := addDirEntry_of_none hslot (UInt32.ofNat k) name
  rw [← block_take hp hfree] at hadd
  rw [simplefsCreate_of_free h hp hname habs hk hadd]
  rfl

end creation

end NosmeriOs.SimpleFs
