import Mathlib.Data.List.GetD
import NosmeriOs.DirTree
import NosmeriOs.SimpleFsOps

/-! # The file system refines a directory tree

The abstract state is a tree of `DirTree`, with inode numbers as identifiers.

* `NodeRep d i n`: inode `i` on disk stands for the node `n`.  It only depends on the inode and
  on the sectors of its blocks (`NodeRep.frame`), so a call has to be followed at the nodes it
  works on and nowhere else.
* `Rep d t`: all nodes of `t` are represented.  Under it lookups and reads are those of `t`.
* `FsState.Refines s t`: lookups, reads, writes and creations in the state `s` are those of `t`.
  `run_refines_tree`: every run from a format is a run of the tree, and ends in such a state. -/

namespace NosmeriOs.SimpleFs

open Bytes

abbrev FsNode := DirTree.Node ℕ CStr UInt8
abbrev FsTree := DirTree.Tree ℕ CStr UInt8

/-! ### Nodes on disk -/

/-- The blocks of inode `i` hold the bytes `c`. -/
structure FileHolds (d : Disk) (i : ℕ) (c : List UInt8) : Prop where
  size : (inodeAt d i).size.toNat = c.length
  le : c.length ≤ 30 * 512
  block : ∀ m, 512 * m < c.length → (inodeAt d i).block m ≠ 0
  data : ∀ m q, q < 512 → 512 * m + q < c.length →
    (d ((inodeAt d i).block m).toNat).get q = c.getD (512 * m + q) 0

/-- Inode `i` stands for a node of the tree. -/
def NodeRep (d : Disk) (i : ℕ) : FsNode → Prop
  | .file content => IsFile d i ∧ FileHolds d i content
  | .dir entries => IsDirectory d i ∧ ∀ name k, entries name = some k ↔
      ∃ j < 16, (slot d i j).isPresent = true ∧ (slot d i j).HasName name ∧
        (slot d i j).inodeIdx.toNat = k

/-- All nodes of the tree are on disk. -/
def Rep (d : Disk) (t : FsTree) : Prop := ∀ i n, t i = some n → NodeRep d i n

/-- Inode `i` and the sectors of its blocks are the same on both disks. -/
structure SameNode (d d' : Disk) (i : ℕ) : Prop where
  inode : inodeAt d' i = inodeAt d i
  data : ∀ m < 30, (inodeAt d i).block m ≠ 0 →
    d' ((inodeAt d i).block m).toNat = d ((inodeAt d i).block m).toNat

theorem SameNode.isDirectory {d d' : Disk} {i : ℕ} (h : SameNode d d' i) (hi : IsDirectory d i) :
    IsDirectory d' i := by
  refine ⟨hi.lt, ?_, ?_, ?_⟩ <;> rw [h.inode]
  · exact hi.used
  · exact hi.dir
  · exact hi.table

theorem SameNode.slot {d d' : Disk} {i : ℕ} (h : SameNode d d' i) (hi : IsDirectory d i) (j : ℕ) :
    slot d' i j = slot d i j := by
  unfold SimpleFs.slot dirBlock entryAt
  rw [h.inode, h.data 0 (by omega) hi.table]

theorem NodeRep.frame {d d' : Disk} {i : ℕ} (h : SameNode d d' i) {n : FsNode}
    (hn : NodeRep d i n) : NodeRep d' i n := by
  cases n with
  | file c =>
      obtain ⟨hf, hc⟩ := hn
      refine ⟨⟨hf.lt, by rw [h.inode]; exact hf.used, by rw [h.inode]; exact hf.file⟩, ?_⟩
      refine ⟨by rw [h.inode]; exact hc.size, hc.le, by rw [h.inode]; exact hc.block, ?_⟩
      intro m q hq hm
      have hm30 : m < 30 := by
        have := hc.le
        omega
      rw [h.inode, h.data m hm30 (hc.block m (by omega))]
      exact hc.data m q hq hm
  | dir e =>
      obtain ⟨hd, he⟩ := hn
      refine ⟨h.isDirectory hd, fun name k => ?_⟩
      rw [he]
      simp only [h.slot hd]

theorem NodeRep.used {d : Disk} {i : ℕ} {n : FsNode} (h : NodeRep d i n) :
    i < 64 ∧ (inodeAt d i).isUsed = true := by
  cases n with
  | file c => exact ⟨h.1.lt, h.1.used⟩
  | dir e => exact ⟨h.1.lt, h.1.used⟩

theorem Rep.used {d : Disk} {t : FsTree} (h : Rep d t) {i : ℕ} (hi : t i ≠ none) :
    i < 64 ∧ (inodeAt d i).isUsed = true := by
  obtain ⟨n, hn⟩ := Option.ne_none_iff_exists'.mp hi
  exact (h i n hn).used

/-- An inode that is not in use stands for no node. -/
theorem Rep.none_of_free {d : Disk} {t : FsTree} (h : Rep d t) {k : ℕ}
    (hfree : (inodeAt d k).isUsed = false) : t k = none := by
  by_contra hk
  rw [(h.used hk).2] at hfree
  cases hfree

theorem Rep.frame {d d' : Disk} {t : FsTree} (h : Rep d t)
    (hs : ∀ i < 64, (inodeAt d i).isUsed = true → SameNode d d' i) : Rep d' t := by
  intro i n hn
  obtain ⟨h1, h2⟩ := (h i n hn).used
  exact (h i n hn).frame (hs i h1 h2)

/-- A node of the tree is a directory of the disk or has no directory flag. -/
theorem Rep.dir_or {d : Disk} {t : FsTree} (h : Rep d t) {i : ℕ} (hi : t i ≠ none) :
    (∃ e, t i = some (.dir e) ∧ IsDirectory d i) ∨
      (∃ c, t i = some (.file c) ∧ IsFile d i) := by
  cases hn : t i with
  | none => exact absurd hn hi
  | some n =>
      cases n with
      | file c => exact Or.inr ⟨c, rfl, (h i _ hn).1⟩
      | dir e => exact Or.inl ⟨e, rfl, (h i _ hn).1⟩

/-- A name is absent from a directory exactly when the tree has none under it. -/
theorem Rep.absent_iff {d : Disk} {t : FsTree} (h : Rep d t) {i : ℕ} {e : CStr → Option ℕ}
    (hi : t i = some (.dir e)) (name : CStr) : Absent d i name ↔ e name = none := by
  have he := (h i _ hi).2 name
  constructor
  · intro ha
    by_contra hne
    obtain ⟨k, hk⟩ := Option.ne_none_iff_exists'.mp hne
    obtain ⟨j, hj, hp, hn, _⟩ := (he k).mp hk
    exact ha j hj hp hn
  · intro hnone j hj hp hn
    have := (he _).mpr ⟨j, hj, hp, hn, rfl⟩
    rw [hnone] at this
    cases this

/-! ### Lookups and reads -/

/-- What `simplefs_lookup` answers for a tree. -/
def lookupResult (t : FsTree) (p : ℕ) (name : CStr) : ℤ :=
  match t.lookup p name with
  | some k => k
  | none => -1

/-- What `simplefs_read` of at most `n` bytes answers for a tree. -/
def readResult (t : FsTree) (p : ℕ) (name : CStr) (n : ℕ) : ℤ × List UInt8 :=
  match t.read p name with
  | some content => ((min n content.length : ℕ), content.take n)
  | none => (-1, [])

/-- Lookups are those of the tree. -/
theorem simplefsLookup_rep {io : Io} {t : FsTree} (hinv : FsInv io.disk) (h : Rep io.disk t)
    {p : UInt32} (hp : t p.toNat ≠ none) (name : CStr) :
    simplefsLookup io p name = lookupResult t p.toNat name := by
  unfold lookupResult
  rcases h.dir_or hp with ⟨e, he, hd⟩ | ⟨c, hc, hf⟩
  · rw [DirTree.Tree.lookup_dir he]
    rcases simplefsLookup_cases hinv.tree hd name with ⟨hl, ha⟩ | ⟨j, hj, hpr, hn, _, hl⟩
    · rw [hl, (h.absent_iff he name).mp ha]
    · rw [hl, ((h _ _ he).2 name _).mpr ⟨j, hj, hpr, hn, rfl⟩]
  · rw [simplefsLookup_of_not_dir name hf.file]
    unfold DirTree.Tree.lookup
    rw [hc]

theorem take_append_drop_take {α : Type} (l : List α) (a b : ℕ) :
    l.take (min a b) ++ (l.drop a).take (b - a) = l.take b := by
  rcases Nat.le_total b a with h | h
  · rw [Nat.min_eq_right h, Nat.sub_eq_zero_of_le h, List.take_zero, List.append_nil]
  · rw [Nat.min_eq_left h, ← List.take_add, Nat.add_sub_cancel' h]

/-- The read loop delivers the bytes from block `i` on. -/
theorem readLoop_holds {io : Io} {ino : Inode} {c : List UInt8} (hc : c.length ≤ 30 * 512)
    (hdata : ∀ m q, q < 512 → 512 * m + q < c.length →
      (io.disk (ino.block m).toNat).get q = c.getD (512 * m + q) 0) (n : ℕ) :
    ∀ (i : ℕ) (left : UInt32), n = (left.toNat + 511) / 512 →
      left.toNat = 0 ∨ 512 * i + left.toNat ≤ c.length →
      readLoop io ino n i left = some ((c.drop (512 * i)).take left.toNat) := by
  induction n with
  | zero =>
      intro i left hn _
      have : left.toNat = 0 := by omega
      rw [this, List.take_zero]
      rfl
  | succ n ih =>
      intro i left hn hle
      have hi : ¬ DIRECT_BLOCKS ≤ i := by
        simp only [DIRECT_BLOCKS]
        omega
      have hrec := ih (i + 1) (left - chunkLen left) (by rw [toNat_sub_chunkLen]; omega)
        (by rw [toNat_sub_chunkLen]; omega)
      have hchunk : (List.range (chunkLen left).toNat).map (io.disk (ino.block i).toNat).get =
          (c.drop (512 * i)).take (min 512 left.toNat) := by
        rw [toNat_chunkLen]
        apply List.ext_getElem
        · simp only [List.length_map, List.length_range, List.length_take, List.length_drop]
          omega
        · intro q h1 h2
          simp only [List.length_map, List.length_range] at h1
          rw [List.getElem_map, List.getElem_range, hdata i q (by omega) (by omega),
            List.getElem_take, List.getElem_drop, List.getD_eq_getElem]
      have hstep : readLoop io ino (n + 1) i left =
          (readLoop io ino n (i + 1) (left - chunkLen left)).map
            ((List.range (chunkLen left).toNat).map (io.disk (ino.block i).toNat).get ++ ·) := by
        rw [readLoop, if_neg hi]
        rfl
      rw [hstep, hrec, hchunk, Option.map_some, toNat_sub_chunkLen]
      rw [show 512 * (i + 1) = 512 * i + 512 by omega, ← List.drop_drop, take_append_drop_take]

theorem toNat_neededBlocks {size : UInt32} (h : size.toNat ≤ 30 * 512) :
    ((size + 511) / 512).toNat = (size.toNat + 511) / 512 := by
  rw [UInt32.toNat_div, UInt32.toNat_add]
  show (size.toNat + 511) % 2 ^ 32 / 512 = _
  rw [Nat.mod_eq_of_lt (by omega)]

theorem cInt_of_lt_half {w : UInt32} (h : w.toNat < 2 ^ 31) : cInt w = (w.toNat : ℤ) := by
  unfold cInt
  rw [BitVec.toInt_eq_toNat_of_lt]
  · rfl
  · show 2 * w.toNat < 2 ^ 32
    omega

theorem simplefsRead_eq (io : Io) (p : UInt32) (name : CStr) (size : UInt32) :
    simplefsRead io p name size =
      if simplefsLookup io p name = -1 then some (-1, [])
      else if (inodeAt io.disk (cUInt (simplefsLookup io p name)).toNat).isDir then some (-1, [])
      else
        let ino := inodeAt io.disk (cUInt (simplefsLookup io p name)).toNat
        let bytes := if ino.size < size then ino.size else size
        (readLoop io ino ((bytes + 511) / 512).toNat 0 bytes).map fun b => (cInt bytes, b) := rfl

/-- Reading an inode that holds `c`. -/
theorem simplefsRead_holds {io : Io} {p : UInt32} {name : CStr} {k : ℕ} {c : List UInt8}
    (hl : simplefsLookup io p name = k) (hlt : k < 64) (hfile : (inodeAt io.disk k).isDir = false)
    (hh : FileHolds io.disk k c) (n : UInt32) :
    simplefsRead io p name n = some (((min n.toNat c.length : ℕ) : ℤ), c.take n.toNat) := by
  have hcu : (cUInt (k : ℤ)).toNat = k := by rw [cUInt_natCast, toNat_ofNat_lt hlt]
  have hne : ¬ ((k : ℤ) = -1) := by omega
  rw [simplefsRead_eq, hl]
  simp only [hne, if_false, hcu]
  have hbytes : (if (inodeAt io.disk k).size < n then (inodeAt io.disk k).size else n).toNat =
      min n.toNat c.length := by
    rw [← hh.size]
    split_ifs with hlt
    · have hlt' : (inodeAt io.disk k).size.toNat < n.toNat := hlt
      omega
    · have hlt' : ¬ (inodeAt io.disk k).size.toNat < n.toNat := hlt
      omega
  generalize (if (inodeAt io.disk k).size < n then (inodeAt io.disk k).size else n) = bytes
    at hbytes
  have hle := hh.le
  rw [readLoop_holds hh.le hh.data _ 0 bytes (toNat_neededBlocks (by omega)) (by omega)]
  simp only [hfile, Bool.false_eq_true, if_false, Option.map_some, Option.some.injEq]
  rw [cInt_of_lt_half (by omega), hbytes, Nat.mul_zero, List.drop_zero]
  have : c.take (min n.toNat c.length) = c.take n.toNat := by
    rw [← List.take_take, List.take_length]
  rw [this]

/-- Reading a file that holds `c`. -/
theorem simplefsRead_file {io : Io} {p : UInt32} {name : CStr} {k : ℕ} {c : List UInt8}
    (hl : simplefsLookup io p name = k) (hk : IsFile io.disk k) (hh : FileHolds io.disk k c)
    (n : UInt32) :
    simplefsRead io p name n = some (((min n.toNat c.length : ℕ) : ℤ), c.take n.toNat) :=
  simplefsRead_holds hl hk.lt hk.file hh n

/-- Reads are those of the tree. -/
theorem simplefsRead_rep {io : Io} {t : FsTree} (hinv : FsInv io.disk) (h : Rep io.disk t)
    (hw : DirTree.Wf t) {p : UInt32} (hp : t p.toNat ≠ none) (name : CStr) (n : UInt32) :
    simplefsRead io p name n = some (readResult t p.toNat name n.toNat) := by
  have hlook := simplefsLookup_rep hinv h hp name
  unfold lookupResult at hlook
  unfold readResult DirTree.Tree.read
  cases hl : t.lookup p.toNat name with
  | none =>
      rw [hl] at hlook
      rw [simplefsRead_eq, if_pos hlook]
      simp
  | some k =>
      rw [hl] at hlook
      have hk := hw.closed _ _ _ hl
      obtain ⟨e, he, hd⟩ | ⟨c, hc, hf⟩ := h.dir_or hk
      · have hcu : (cUInt (k : ℤ)).toNat = k := by rw [cUInt_natCast, toNat_ofNat_lt hd.lt]
        have hne : ¬ ((k : ℤ) = -1) := by omega
        rw [simplefsRead_eq, hlook]
        simp [hcu, hne, he, hd.dir]
      · obtain ⟨_, hh⟩ := h k _ hc
        rw [simplefsRead_file hlook hf hh]
        simp [hc]

/-! ### New nodes -/

/-- Taking a free inode leaves the inodes in use alone. -/
theorem sameNode_take {io : Io} (h : BlockInv io.disk) {k : ℕ} (hk : k < 64)
    (hfree : (inodeAt io.disk k).isUsed = false) (flags : UInt32) {i : ℕ} (hi : i < 64)
    (hu : (inodeAt io.disk i).isUsed = true) : SameNode io.disk (io.take k flags).disk i := by
  have hik : i ≠ k := by
    rintro rfl
    rw [hu] at hfree
    cases hfree
  rw [Io.take_disk]
  refine ⟨inodeAt_putInode_ne _ _ hik, fun m hm hne => ?_⟩
  exact putInode_data _ _ hk (Or.inr (h.range i hi hu m hm hne).1)

/-- Building a directory leaves the inodes in use alone. -/
theorem sameNode_makeDir {io : Io} {sb : Superblock} (h : BlockInv io.disk)
    (hsb : sb.dataBlockStart = 17) {k : ℕ} {p : UInt32} (hk : k < 64)
    (hfree : (inodeAt io.disk k).isUsed = false) (hspec : MakeDirSpec io sb k p) {i : ℕ}
    (hi : i < 64) (hu : (inodeAt io.disk i).isUsed = true) :
    SameNode io.disk (io.makeDir sb k p).disk i := by
  have hik : i ≠ k := by
    rintro rfl
    rw [hu] at hfree
    cases hfree
  refine ⟨by rw [hspec.inode i hi, if_neg hik], fun m hm hne => ?_⟩
  refine hspec.data _ (h.range i hi hu m hm hne).1 fun he => ?_
  -- the new block is in no slot of an inode in use
  have hb : IsFreeBlock (io.take k (INODE_USED ||| INODE_DIR)).disk (newDirBlock io sb k) :=
    isFreeBlock_newDirBlock hsb
  refine hb.free ⟨i, hi, ?_, m, hm, ?_⟩
  · rw [Io.take_disk, inodeAt_putInode_ne _ _ hik]
    exact hu
  · rw [Io.take_disk, inodeAt_putInode_ne _ _ hik]
    exact UInt32.toNat.inj he

/-- Naming an inode in directory `p` leaves all other inodes in use alone. -/
theorem sameNode_linked {d : Disk} (h : BlockInv d) {p j : ℕ} {k : UInt32} {s : CStr}
    (hp : IsDirectory d p) {i : ℕ} (hi : i < 64) (hu : (inodeAt d i).isUsed = true) (hip : i ≠ p) :
    SameNode d (linked d p j k s) i := by
  refine ⟨inodeAt_linked h hp hi, fun m hm hne => ?_⟩
  refine Function.update_of_ne (fun he => ?_) _ _
  exact hip (h.unique p hp.lt hp.used 0 (by omega) hp.table i hi hu m hm (UInt32.toNat.inj he)).1

/-- A table with only `.` and `..` is that of a new directory. -/
theorem nodeRep_newTable {d : Disk} {k : ℕ} {p : UInt32} (hk : IsDirectory d k)
    (hs : ∀ j, slot d k j = getEntry (newTable (UInt32.ofNat k) p) j) :
    NodeRep d k (.dir (DirTree.newEntries dot dotdot k p.toNat)) := by
  refine ⟨hk, fun name m => ?_⟩
  have h0 : (slot d k 0).HasName dot := by
    rw [hs, getEntry_newTable_zero]
    exact hasName_mkEntry _ _ (by decide)
  have h1 : (slot d k 1).HasName dotdot := by
    rw [hs, getEntry_newTable_one]
    exact hasName_mkEntry _ _ (by decide)
  have hx0 : (slot d k 0).inodeIdx.toNat = k := by
    rw [hs, getEntry_newTable_zero]
    exact toNat_ofNat_lt hk.lt
  have hx1 : (slot d k 1).inodeIdx.toNat = p.toNat := by
    rw [hs, getEntry_newTable_one]
    rfl
  unfold DirTree.newEntries
  constructor
  · intro he
    split_ifs at he with hd hdd
    · subst hd
      cases he
      exact ⟨0, by omega, h0.isPresent_iff.mpr (by decide), h0, hx0⟩
    · subst hdd
      cases he
      exact ⟨1, by omega, h1.isPresent_iff.mpr (by decide), h1, hx1⟩
  · rintro ⟨j, hj, hp, hn, rfl⟩
    have hj2 : j < 2 := by
      by_contra hj2
      rw [hs, isPresent_newTable _ _ (by omega)] at hp
      cases hp
    interval_cases j
    · rw [hn.unique h0, if_pos rfl, hx0]
    · rw [hn.unique h1, if_neg dot_ne_dotdot.symm, if_pos rfl, hx1]

/-- Naming the inode `k`, which already stands for the node `n`, adds that node to the tree. -/
theorem Rep.linked {d : Disk} {t : FsTree} (h : Rep d t) (hb : BlockInv d) {p j k : ℕ}
    {name : CStr} {e : CStr → Option ℕ} {n : FsNode} (hp : t p = some (.dir e)) (hj : j < 16)
    (hempty : (slot d p j).isPresent = false) (hname : NameOk name)
    (habs : Absent d p name) (hk : k < 64) (htk : t k = none) (hn : NodeRep d k n) :
    Rep (linked d p j (UInt32.ofNat k) name) (t.add p name k n) := by
  have hpd := (h p _ hp).1
  have hpk : p ≠ k := by
    rintro rfl
    rw [hp] at htk
    cases htk
  have hnew : (mkEntry (slot d p j).filename (UInt32.ofNat k) name).HasName name :=
    hasName_mkEntry _ _ hname.1
  intro i m hm
  by_cases hik : i = k
  · subst hik
    rw [DirTree.Tree.add_self, Option.some.injEq] at hm
    subst hm
    exact hn.frame (sameNode_linked hb hpd hn.used.1 hn.used.2 hpk.symm)
  rw [DirTree.Tree.add_of_ne hik] at hm
  by_cases hip : i = p
  · subst hip
    unfold DirTree.Tree.link at hm
    rw [hp] at hm
    simp only [if_true, Option.some.injEq] at hm
    subst hm
    refine ⟨(isDirectory_linked hb hpd i).mpr hpd, fun s m => ?_⟩
    have hslot := fun j' => slot_linked (k := UInt32.ofNat k) (s := name) hb hpd hj hpd j'
    by_cases hs : s = name
    · subst hs
      rw [Function.update_self]
      constructor
      · intro he
        cases he
        refine ⟨j, hj, ?_⟩
        rw [hslot, if_pos ⟨rfl, rfl⟩]
        exact ⟨hnew.isPresent_iff.mpr hname.2, hnew, toNat_ofNat_lt hk⟩
      · rintro ⟨j', hj', hpr, hns, hx⟩
        rw [hslot] at hpr hns hx
        split_ifs at hpr hns hx with hjj
        · rw [← hx]
          exact congrArg some (toNat_ofNat_lt hk).symm
        · exact absurd hns (habs j' hj' hpr)
    · rw [Function.update_of_ne hs, (h i _ hp).2]
      constructor
      · rintro ⟨j', hj', hpr, hns, hx⟩
        refine ⟨j', hj', ?_⟩
        rw [hslot, if_neg]
        · exact ⟨hpr, hns, hx⟩
        · rintro ⟨_, rfl⟩
          rw [hempty] at hpr
          cases hpr
      · rintro ⟨j', hj', hpr, hns, hx⟩
        rw [hslot] at hpr hns hx
        split_ifs at hpr hns hx with hjj
        · exact absurd (hns.unique hnew) hs
        · exact ⟨j', hj', hpr, hns, hx⟩
  · have hti : t i = some m := by
      unfold DirTree.Tree.link at hm
      rcases hc : t i with _ | ⟨c | e'⟩
      · rw [hc] at hm
        cases hm
      · rw [hc] at hm
        exact hm
      · rw [hc] at hm
        simpa [hip] using hm
    have hr := h i m hti
    exact hr.frame (sameNode_linked hb hpd hr.used.1 hr.used.2 hip)

/-- The device after an entry was added holds the disk `linked`. -/
theorem linkWrite_disk (io : Io) (p j : ℕ) (k : UInt32) (name : CStr) :
    (io.write (linkWrite io.disk p j k name)).disk = linked io.disk p j k name := rfl

theorem absent_congr {d d' : Disk} {p : ℕ} (hs : ∀ j, slot d' p j = slot d p j) {name : CStr}
    (h : Absent d p name) : Absent d' p name := by
  intro j hj hp
  rw [hs] at hp ⊢
  exact h j hj hp

/-- `simplefs_create` is a step of the tree. -/
theorem simplefsCreate_rep {io : Io} {t : FsTree} (hinv : FsInv io.disk) (h : Rep io.disk t)
    {p : UInt32} (hp : t p.toNat ≠ none) (name : CStr) :
    ∃ t', DirTree.Step dot dotdot t (.create p.toNat name)
        (decide ((simplefsCreate io p name).1 = 0)) t' ∧
      Rep (simplefsCreate io p name).2.disk t' := by
  rcases h.dir_or hp with ⟨e, he, hd⟩ | ⟨c, hc, hf⟩
  swap
  · rw [simplefsCreate_of_not_dir name hf.file]
    exact ⟨t, DirTree.Step.fail _, h⟩
  rcases simplefsCreate_cases hinv hd name with ⟨_, hr⟩ | ⟨hname, habs, k, hk, hfree, hcase⟩
  · rw [hr]
    exact ⟨t, DirTree.Step.fail _, h⟩
  have hrep : Rep (io.take k INODE_USED).disk t :=
    h.frame fun i hi hu => sameNode_take hinv.blocks hk hfree INODE_USED hi hu
  rcases hcase with ⟨_, hr⟩ | ⟨j, hj, hempty, hr⟩
  · rw [hr]
    exact ⟨t, DirTree.Step.fail _, hrep⟩
  rw [hr]
  have htk := h.none_of_free hfree
  refine ⟨_, DirTree.Step.create he ((h.absent_iff he name).mp habs) htk, ?_⟩
  rw [linkWrite_disk]
  have hst := sameTree_take hinv hk hfree INODE_USED (by decide)
  have hrun : SafeRun io (io.take k INODE_USED) :=
    SafeRun.step (Step.takeInode k INODE_USED hk hfree (by decide))
  have hself : inodeAt (io.take k INODE_USED).disk k = Inode.fresh INODE_USED := by
    rw [Io.take_disk, inodeAt_putInode_same]
  refine hrep.linked (hrun.inv hinv).blocks he hj (by rw [hst.slots _ hd]; exact hempty) hname
    (absent_congr (hst.slots _ hd) habs) hk htk ⟨⟨hk, ?_, ?_⟩, ⟨?_, by simp, ?_, ?_⟩⟩
  · rw [hself]; rfl
  · rw [hself]; rfl
  · rw [hself]; rfl
  · intro m hm
    simp at hm
  · intro m q _ hm
    simp at hm

/-- `simplefs_mkdir` is a step of the tree. -/
theorem simplefsMkdir_rep {io : Io} {sb : Superblock} {t : FsTree} (hinv : FsInv io.disk)
    (hsb : sb.dataBlockStart = 17) (h : Rep io.disk t) {p : UInt32} (hp : t p.toNat ≠ none)
    (name : CStr) :
    ∃ t', DirTree.Step dot dotdot t (.mkdir p.toNat name)
        (decide ((simplefsMkdir io sb p name).1 = 0)) t' ∧
      Rep (simplefsMkdir io sb p name).2.disk t' := by
  rcases h.dir_or hp with ⟨e, he, hd⟩ | ⟨c, hc, hf⟩
  swap
  · rw [simplefsMkdir_of_reject (Or.inr (Or.inl hf.file))]
    exact ⟨t, DirTree.Step.fail _, h⟩
  rcases simplefsMkdir_cases hinv hsb hd name with ⟨_, hr⟩ | ⟨hname, habs, k, hk, hfree, hcase⟩
  · rw [hr]
    exact ⟨t, DirTree.Step.fail _, h⟩
  have hspec := makeDir_spec hinv hsb hk hfree hd
  have hrep : Rep (io.makeDir sb k p).disk t :=
    h.frame fun i hi hu => sameNode_makeDir hinv.blocks hsb hk hfree hspec hi hu
  rcases hcase with ⟨_, hr⟩ | ⟨j, hj, hempty, hr⟩
  · rw [hr]
    exact ⟨t, DirTree.Step.fail _, hrep⟩
  rw [hr]
  have htk := h.none_of_free hfree
  refine ⟨_, DirTree.Step.mkdir he ((h.absent_iff he name).mp habs) htk, ?_⟩
  rw [linkWrite_disk]
  exact hrep.linked (hspec.run.inv hinv).blocks he hj (by rw [hspec.slots _ hd]; exact hempty)
    hname (absent_congr (hspec.slots _ hd) habs) hk htk
    (nodeRep_newTable ((hspec.dirs k).mpr (Or.inr rfl)) hspec.self)

/-! ### New contents -/

/-- The bytes of the caller's buffer. -/
def contentOf (buf : ℕ → UInt8) (size : UInt32) : List UInt8 := (List.range size.toNat).map buf

theorem length_contentOf (buf : ℕ → UInt8) (size : UInt32) :
    (contentOf buf size).length = size.toNat := by
  unfold contentOf
  rw [List.length_map, List.length_range]

theorem getD_contentOf (buf : ℕ → UInt8) {size : UInt32} {k : ℕ} (hk : k < size.toNat) :
    (contentOf buf size).getD k 0 = buf k := by
  rw [List.getD_eq_getElem _ _ (by rw [length_contentOf]; exact hk)]
  unfold contentOf
  rw [List.getElem_map, List.getElem_range]

/-- What a write of `n` blocks to file `k` leaves on the disk. -/
structure WriteDone (d d' : Disk) (k n : ℕ) (buf : ℕ → UInt8) (len : UInt32) : Prop where
  size : (inodeAt d' k).size = len
  flags : (inodeAt d' k).flags = (inodeAt d k).flags
  block : ∀ m < n, (inodeAt d' k).block m ≠ 0 ∧ d' ((inodeAt d' k).block m).toNat =
    chunkSector buf m (min 512 (len.toNat - 512 * m))
  others : ∀ i < 64, i ≠ k → inodeAt d' i = inodeAt d i
  same : ∀ i < 64, (inodeAt d i).isUsed = true → i ≠ k → SameNode d d' i

/-- A write that passes the check of the block count, whatever its size is. -/
theorem simplefsWrite_done {io : Io} {sb : Superblock} (hinv : FsInv io.disk)
    (hsb : sb.dataBlockStart = 17) {p : UInt32} {name : CStr} {k : ℕ}
    (hl : simplefsLookup io p name = k) (hk : IsFile io.disk k) (buf : ℕ → UInt8) {size : UInt32}
    (hn : ((size + 511) / 512).toNat ≤ 30) :
    (simplefsWrite io sb p name buf size).1 = 0 ∧
    WriteDone io.disk (simplefsWrite io sb p name buf size).2.disk k ((size + 511) / 512).toNat
      buf size := by
  have hcu : (UInt32.ofNat k).toNat = k := toNat_ofNat_lt hk.lt
  rw [simplefsWrite_eq, hl, if_neg (by omega), if_neg (by omega), cUInt_natCast]
  have hw := writeLoop_spec hsb (k := UInt32.ofNat k) (by rw [hcu]; exact hk.lt) buf
    ((size + 511) / 512).toNat 0 io _ size hinv rfl (by rw [hcu]; exact hk.used)
    (by rw [hcu]; exact hk.file) (by omega)
  simp only
  generalize writeLoop sb (UInt32.ofNat k) buf ((size + 511) / 512).toNat 0 io
    (inodeAt io.disk (UInt32.ofNat k).toNat) size = r at hw ⊢
  rw [hcu] at hw
  rw [writeInode_disk, hcu]
  have hself : inodeAt r.1.disk k = r.2 := by
    have := hw.self
    rwa [hcu] at this
  have hblocks := (hw.run.inv hinv).blocks
  have hused : r.2.isUsed = true := by
    unfold Inode.isUsed
    rw [hw.flags]
    exact hk.used
  have hothers : ∀ i < 64, i ≠ k → inodeAt r.1.disk i = inodeAt io.disk i := by
    intro i hi hik
    exact hw.others i hi (by rw [hcu]; exact hik)
  refine ⟨trivial, ?_, ?_, ?_, ?_, ?_⟩
  · rw [inodeAt_putInode_same]
  · rw [inodeAt_putInode_same]
    exact hw.flags
  · intro m hm
    obtain ⟨hne, hdata⟩ := hw.filled m (Nat.zero_le m) (by omega)
    have hge := (hblocks.range k hk.lt (by rw [hself]; exact hused) m (by omega)
      (by rw [hself]; exact hne)).1
    rw [hself] at hge
    rw [inodeAt_putInode_same]
    refine ⟨hne, ?_⟩
    show putInode r.1.disk k _ (r.2.block m).toNat = _
    rw [putInode_data _ _ hk.lt (Or.inr hge), hdata, Nat.sub_zero]
  · intro i hi hik
    rw [inodeAt_putInode_ne _ _ hik, hothers i hi hik]
  · intro i hi hu hik
    refine ⟨?_, fun m hm hne => ?_⟩
    · rw [inodeAt_putInode_ne _ _ hik, hothers i hi hik]
    · have hge := (hinv.blocks.range i hi hu m hm hne).1
      rw [putInode_data _ _ hk.lt (Or.inr hge)]
      refine hw.frame _ hge fun m' _ hm' he => ?_
      -- a block of file `k` is no block of inode `i`
      have hne' := (hw.filled m' (Nat.zero_le m') hm').1
      have := (hblocks.unique k hk.lt (by rw [hself]; exact hused) m' (by omega)
        (by rw [hself]; exact hne') i hi (by rw [hothers i hi hik]; exact hu) m hm
        (by rw [hself, hothers i hi hik]; exact (UInt32.toNat.inj he).symm)).1
      exact hik this

/-- What a write of at most thirty blocks to file `k` leaves: the file with the new bytes, all
other inodes in use as they were. -/
theorem simplefsWrite_file {io : Io} {sb : Superblock} (hinv : FsInv io.disk)
    (hsb : sb.dataBlockStart = 17) {p : UInt32} {name : CStr} {k : ℕ}
    (hl : simplefsLookup io p name = k) (hk : IsFile io.disk k) (buf : ℕ → UInt8) {size : UInt32}
    (hsize : size.toNat ≤ 30 * 512) :
    (simplefsWrite io sb p name buf size).1 = 0 ∧
    NodeRep (simplefsWrite io sb p name buf size).2.disk k (.file (contentOf buf size)) ∧
    ∀ i < 64, (inodeAt io.disk i).isUsed = true → i ≠ k →
      SameNode io.disk (simplefsWrite io sb p name buf size).2.disk i := by
  have hn := toNat_neededBlocks hsize
  have hn30 : ((size + 511) / 512).toNat ≤ 30 := by omega
  obtain ⟨hret, hw⟩ := simplefsWrite_done hinv hsb hl hk buf hn30
  generalize (simplefsWrite io sb p name buf size).2.disk = d' at hw
  refine ⟨hret, ⟨⟨hk.lt, ?_, ?_⟩, ⟨?_, ?_, ?_, ?_⟩⟩, hw.same⟩
  · unfold Inode.isUsed
    rw [hw.flags]
    exact hk.used
  · unfold Inode.isDir
    rw [hw.flags]
    exact hk.file
  · rw [hw.size, length_contentOf]
  · rw [length_contentOf]
    exact hsize
  · intro m hm
    rw [length_contentOf] at hm
    exact (hw.block m (by omega)).1
  · intro m q hq hm
    rw [length_contentOf] at hm
    rw [(hw.block m (by omega)).2, getD_contentOf buf hm]
    unfold chunkSector
    have hb := Buf.get_blit_in (Buf.zero : Sector) 0 (min 512 (size.toNat - 512 * m))
      (fun q => buf (m * 512 + q)) (k := q) (by omega) (by omega)
    rw [Nat.zero_add] at hb
    rw [hb, Nat.mul_comm m 512]

/-- Filling file `k` and nothing else replaces its content in the tree. -/
theorem Rep.write {d d' : Disk} {t : FsTree} (h : Rep d t) {k : ℕ} {c : List UInt8}
    (hk : NodeRep d' k (.file c))
    (hothers : ∀ i < 64, (inodeAt d i).isUsed = true → i ≠ k → SameNode d d' i) :
    Rep d' (t.write k c) := by
  intro i n hi
  unfold DirTree.Tree.write at hi
  by_cases hik : i = k
  · subst hik
    rw [Function.update_self, Option.some.injEq] at hi
    subst hi
    exact hk
  · rw [Function.update_of_ne hik] at hi
    obtain ⟨h1, h2⟩ := (h i n hi).used
    exact (h i n hi).frame (hothers i h1 h2 hik)

/-- `simplefs_write` is a step of the tree. -/
theorem simplefsWrite_rep {io : Io} {sb : Superblock} {t : FsTree} (hinv : FsInv io.disk)
    (hsb : sb.dataBlockStart = 17) (h : Rep io.disk t) (hw : DirTree.Wf t) {p : UInt32}
    (hp : t p.toNat ≠ none) (name : CStr) (buf : ℕ → UInt8) {size : UInt32}
    (hsize : size.toNat ≤ 30 * 512)
    (hfile : simplefsLookup io p name = -1 ∨
      (inodeAt io.disk (cUInt (simplefsLookup io p name)).toNat).isDir = false) :
    ∃ t', DirTree.Step dot dotdot t (.write p.toNat name (contentOf buf size))
        (decide ((simplefsWrite io sb p name buf size).1 = 0)) t' ∧
      Rep (simplefsWrite io sb p name buf size).2.disk t' := by
  have hlook := simplefsLookup_rep hinv h hp name
  unfold lookupResult at hlook
  cases hl : t.lookup p.toNat name with
  | none =>
      rw [hl] at hlook
      rw [simplefsWrite_eq, if_pos hlook]
      exact ⟨t, DirTree.Step.fail _, h⟩
  | some k =>
      rw [hl] at hlook
      have hlook' : simplefsLookup io p name = (k : ℤ) := hlook
      have hk := hw.closed _ _ _ hl
      have hk64 := (h.used hk).1
      have hnd : (inodeAt io.disk k).isDir = false := by
        have := hfile.resolve_left (by omega)
        rwa [hlook', cUInt_natCast, toNat_ofNat_lt hk64] at this
      rcases h.dir_or hk with ⟨e, he, hd⟩ | ⟨c, hc, hf⟩
      · rw [hd.dir] at hnd
        cases hnd
      obtain ⟨h0, hself, hothers⟩ := simplefsWrite_file hinv hsb hlook' hf buf hsize
      rw [h0]
      exact ⟨_, DirTree.Step.write hl hc, h.write hself hothers⟩

/-! ### When `create` and `mkdir` succeed -/

/-- The conditions under which `create` and `mkdir` succeed. -/
def CanCreate (io : Io) (p : UInt32) (name : CStr) : Prop :=
  (1 ≤ name.strlen ∧ name.strlen ≤ 27) ∧ (readInode io p).isDir = true ∧
    Absent io.disk p.toNat name ∧ (∃ k < INODE_COUNT, (inodeAt io.disk k).isUsed = false) ∧
    ∃ j < ENTRIES_PER_BLOCK, (slot io.disk p.toNat j).isPresent = false

theorem nameOk_iff (name : CStr) : NameOk name ↔ 1 ≤ name.strlen ∧ name.strlen ≤ 27 := by
  unfold NameOk
  omega

/-- The outcomes listed by `simplefsCreate_cases` and `simplefsMkdir_cases` decide success. -/
theorem eq_zero_iff_canCreate {io : Io} {p : UInt32} {name : CStr} {r : ℤ × Io}
    {failed : ℕ → Io} {linked : ℕ → ℕ → Io} (hd : (readInode io p).isDir = true)
    (h : (¬ (NameOk name ∧ Absent io.disk p.toNat name ∧
        ∃ k < 64, (inodeAt io.disk k).isUsed = false) ∧ r = (-1, io)) ∨
      (NameOk name ∧ Absent io.disk p.toNat name ∧ ∃ k < 64, (inodeAt io.disk k).isUsed = false ∧
        (((∀ j < 16, (slot io.disk p.toNat j).isPresent = true) ∧ r = (-1, failed k)) ∨
        ∃ j < 16, (slot io.disk p.toNat j).isPresent = false ∧ r = (0, linked k j)))) :
    r.1 = 0 ↔ CanCreate io p name := by
  unfold CanCreate
  rw [← nameOk_iff]
  rcases h with ⟨hno, rfl⟩ | ⟨hname, habs, k, hk, hfree, ⟨hfull, rfl⟩ | ⟨j, hj, hempty, rfl⟩⟩
  · refine ⟨fun h => by simp at h, fun ⟨h1, _, h2, h3, _⟩ => absurd ⟨h1, h2, h3⟩ hno⟩
  · refine ⟨fun h => by simp at h, fun ⟨_, _, _, _, j, hj, hempty⟩ => ?_⟩
    rw [hfull j hj] at hempty
    cases hempty
  · exact ⟨fun _ => ⟨hname, hd, habs, ⟨k, hk, hfree⟩, j, hj, hempty⟩, fun _ => rfl⟩

theorem simplefsCreate_eq_zero_iff {io : Io} (h : FsInv io.disk) {p : UInt32}
    (hp : IsDirectory io.disk p.toNat ∨ (inodeAt io.disk p.toNat).isDir = false) (name : CStr) :
    (simplefsCreate io p name).1 = 0 ↔ CanCreate io p name := by
  rcases hp with hp | hp
  · exact eq_zero_iff_canCreate hp.dir (simplefsCreate_cases h hp name)
  · rw [simplefsCreate_of_not_dir name hp]
    refine ⟨fun h => by simp at h, fun hc => ?_⟩
    have := hc.2.1
    rw [readInode_eq, hp] at this
    cases this

theorem simplefsMkdir_eq_zero_iff {io : Io} {sb : Superblock} (h : FsInv io.disk)
    (hsb : sb.dataBlockStart = 17) {p : UInt32}
    (hp : IsDirectory io.disk p.toNat ∨ (inodeAt io.disk p.toNat).isDir = false) (name : CStr) :
    (simplefsMkdir io sb p name).1 = 0 ↔ CanCreate io p name := by
  rcases hp with hp | hp
  · exact eq_zero_iff_canCreate hp.dir (simplefsMkdir_cases h hsb hp name)
  · rw [simplefsMkdir_of_reject (Or.inr (Or.inl hp))]
    refine ⟨fun h => by simp at h, fun hc => ?_⟩
    have := hc.2.1
    rw [readInode_eq, hp] at this
    cases this

/-! ### Runs -/

/-- The device, the mounted superblock and the inode numbers obtained from lookups so far. -/
structure FsState where
  io : Io
  sb : Superblock
  known : List UInt32

inductive FsCall where
  | lookup (dir : UInt32) (name : CStr)
  | create (parent : UInt32) (name : CStr)
  | mkdir (parent : UInt32) (name : CStr)
  | write (parent : UInt32) (name : CStr) (buf : ℕ → UInt8) (size : UInt32)

/-- The operation of the tree a call stands for. -/
def FsCall.op : FsCall → Option (DirTree.Op ℕ CStr UInt8)
  | .lookup _ _ => none
  | .create p name => some (.create p.toNat name)
  | .mkdir p name => some (.mkdir p.toNat name)
  | .write p name buf size => some (.write p.toNat name (contentOf buf size))

namespace FsState

/-- After `simplefs_init` the root is known. -/
def init (d : Disk) : FsState :=
  let (io, sb) := simplefsInit ⟨d, []⟩
  ⟨io, sb, [0]⟩

/-- The calls of a run: on inode numbers it has obtained, and writes of at most thirty blocks to
names that are no directories. -/
def allows (s : FsState) : FsCall → Bool
  | .lookup p _ => decide (p ∈ s.known)
  | .create p _ => decide (p ∈ s.known)
  | .mkdir p _ => decide (p ∈ s.known)
  | .write p name _ size => decide (p ∈ s.known) && decide (size.toNat ≤ 30 * 512) &&
      (decide (simplefsLookup s.io p name = -1) ||
        !(readInode s.io (cUInt (simplefsLookup s.io p name))).isDir)

/-- A call: its result and the state after it. -/
def call (s : FsState) : FsCall → ℤ × FsState
  | .lookup p name =>
      let r := simplefsLookup s.io p name
      (r, if r < 0 then s else { s with known := s.known ++ [cUInt r] })
  | .create p name =>
      let (r, io) := simplefsCreate s.io p name
      (r, { s with io := io })
  | .mkdir p name =>
      let (r, io) := simplefsMkdir s.io s.sb p name
      (r, { s with io := io })
  | .write p name buf size =>
      let (r, io) := simplefsWrite s.io s.sb p name buf size
      (r, { s with io := io })

/-- The calls of the list that the run may make, one after the other. -/
def run : FsState → List FsCall → FsState
  | s, [] => s
  | s, c :: cs => if s.allows c then (s.call c).2.run cs else s.run cs

/-- The operations a run asks for, with whether they returned `0`. -/
def trace : FsState → List FsCall → List (DirTree.Op ℕ CStr UInt8 × Bool)
  | _, [] => []
  | s, c :: cs =>
      if s.allows c then
        (c.op.map fun op => (op, decide ((s.call c).1 = 0))).toList ++ (s.call c).2.trace cs
      else s.trace cs

/-- The state stands for the tree `t`. -/
structure Ok (s : FsState) (t : FsTree) : Prop where
  inv : FsInv s.io.disk
  sb : s.sb.dataBlockStart = 17
  rep : Rep s.io.disk t
  wf : DirTree.Wf t
  known : ∀ p ∈ s.known, t p.toNat ≠ none

/-- An inode of the tree is a directory of the disk or has no directory flag. -/
theorem Ok.parent {s : FsState} {t : FsTree} (h : s.Ok t) {p : UInt32} (hp : t p.toNat ≠ none) :
    IsDirectory s.io.disk p.toNat ∨ (inodeAt s.io.disk p.toNat).isDir = false := by
  rcases h.rep.dir_or hp with ⟨e, _, hd⟩ | ⟨c, _, hf⟩
  · exact Or.inl hd
  · exact Or.inr hf.file

/-- The file a write goes to. -/
theorem Ok.target {s : FsState} {t : FsTree} (h : s.Ok t) {p : UInt32} (hp : t p.toNat ≠ none)
    {name : CStr} (hf : simplefsLookup s.io p name = -1 ∨
      (inodeAt s.io.disk (cUInt (simplefsLookup s.io p name)).toNat).isDir = false) :
    simplefsLookup s.io p name = -1 ∨
      IsFile s.io.disk (cUInt (simplefsLookup s.io p name)).toNat := by
  rcases hf with hf | hf
  · exact Or.inl hf
  · have hlook := simplefsLookup_rep h.inv h.rep hp name
    unfold lookupResult at hlook
    cases hl : t.lookup p.toNat name with
    | none =>
        rw [hl] at hlook
        exact Or.inl hlook
    | some k =>
        rw [hl] at hlook
        obtain ⟨h1, h2⟩ := h.rep.used (h.wf.closed _ _ _ hl)
        have hcu : (cUInt (simplefsLookup s.io p name)).toNat = k := by
          rw [hlook, cUInt_natCast, toNat_ofNat_lt h1]
        rw [hcu] at hf ⊢
        exact Or.inr ⟨h1, h2, hf⟩

/-- The node a lookup returns is in the tree. -/
theorem Ok.lookup_mem {s : FsState} {t : FsTree} (h : s.Ok t) {p : UInt32}
    (hp : t p.toNat ≠ none) {name : CStr} (hr : ¬ simplefsLookup s.io p name < 0) :
    t (cUInt (simplefsLookup s.io p name)).toNat ≠ none := by
  have hlook := simplefsLookup_rep h.inv h.rep hp name
  unfold lookupResult at hlook
  cases hl : t.lookup p.toNat name with
  | none =>
      rw [hl] at hlook
      simp only at hlook
      omega
  | some k =>
      rw [hl] at hlook
      have hk := h.wf.closed _ _ _ hl
      rw [hlook, cUInt_natCast, toNat_ofNat_lt (h.rep.used hk).1]
      exact hk

/-- A call on the tree is a step of the tree, a lookup leaves it alone. -/
theorem Ok.call {s : FsState} {t : FsTree} (h : s.Ok t) {c : FsCall} (hc : s.allows c = true) :
    (c.op = none ∧ (s.call c).2.io = s.io ∧ (s.call c).2.Ok t) ∨
    ∃ op t', c.op = some op ∧
      DirTree.Step dot dotdot t op (decide ((s.call c).1 = 0)) t' ∧ (s.call c).2.Ok t' := by
  cases c with
  | lookup p name =>
      left
      have hp := h.known p (of_decide_eq_true hc)
      refine ⟨rfl, ?_, ?_⟩
      · simp only [FsState.call]
        split_ifs <;> rfl
      · simp only [FsState.call]
        split_ifs with hr
        · exact h
        · refine ⟨h.inv, h.sb, h.rep, h.wf, fun q hq => ?_⟩
          rcases List.mem_append.mp hq with hq | hq
          · exact h.known q hq
          · rw [List.mem_singleton] at hq
            rw [hq]
            exact h.lookup_mem hp hr
  | create p name =>
      right
      have hp := h.known p (of_decide_eq_true hc)
      obtain ⟨t', hs, hr⟩ := simplefsCreate_rep h.inv h.rep hp name
      have hrun := simplefsCreate_safe h.inv (h.parent hp) name
      exact ⟨_, t', rfl, hs, hrun.inv h.inv, h.sb, hr, hs.wf h.wf,
        fun q hq => hs.mono (h.known q hq)⟩
  | mkdir p name =>
      right
      have hp := h.known p (of_decide_eq_true hc)
      obtain ⟨t', hs, hr⟩ := simplefsMkdir_rep h.inv h.sb h.rep hp name
      have hrun := simplefsMkdir_safe h.inv h.sb (h.parent hp) name
      exact ⟨_, t', rfl, hs, hrun.inv h.inv, h.sb, hr, hs.wf h.wf,
        fun q hq => hs.mono (h.known q hq)⟩
  | write p name buf size =>
      right
      simp only [FsState.allows, Bool.and_eq_true, Bool.or_eq_true, decide_eq_true_eq,
        Bool.not_eq_true'] at hc
      obtain ⟨⟨hk, hsize⟩, hf⟩ := hc
      have hp := h.known p hk
      obtain ⟨t', hs, hr⟩ := simplefsWrite_rep h.inv h.sb h.rep h.wf hp name buf hsize hf
      have hrun := simplefsWrite_safe h.inv h.sb p name buf size (h.target hp hf)
      exact ⟨_, t', rfl, hs, hrun.inv h.inv, h.sb, hr, hs.wf h.wf,
        fun q hq => hs.mono (h.known q hq)⟩

theorem Ok.run {s : FsState} {t : FsTree} (h : s.Ok t) (cs : List FsCall) :
    ∃ t', DirTree.Run dot dotdot t (s.trace cs) t' ∧ (s.run cs).Ok t' := by
  induction cs generalizing s t with
  | nil => exact ⟨t, DirTree.Run.nil t, h⟩
  | cons c cs ih =>
      by_cases hc : s.allows c = true
      · simp only [FsState.trace, FsState.run, hc, if_true]
        rcases h.call hc with ⟨hop, _, hok⟩ | ⟨op, t', hop, hs, hok⟩
        · rw [hop]
          exact ih hok
        · obtain ⟨t'', hrun, hok'⟩ := ih hok
          rw [hop]
          exact ⟨t'', DirTree.Run.cons hs hrun, hok'⟩
      · simp only [FsState.trace, FsState.run, hc]
        exact ih h

/-- A format leaves the tree with only the root. -/
theorem Ok.init {d : Disk} (hd : needsFormat d = true) :
    (FsState.init d).Ok (DirTree.rootTree dot dotdot 0) := by
  have hi : simplefsInit ⟨d, []⟩ = (formatDisk ⟨d, []⟩, formatSuperblock) := by
    unfold simplefsInit
    rw [if_pos hd]
  have hinv := formatDisk_inv ⟨d, []⟩
  simp only [FsState.init, hi]
  refine ⟨hinv, rfl, fun i n hn => ?_, DirTree.wf_rootTree 0, fun p hp => ?_⟩
  · unfold DirTree.rootTree at hn
    by_cases h0 : i = 0
    · subst h0
      rw [Function.update_self, Option.some.injEq] at hn
      subst hn
      exact nodeRep_newTable (p := 0) hinv.tree.root (slot_formatDisk _)
    · rw [Function.update_of_ne h0] at hn
      cases hn
  · rw [List.mem_singleton] at hp
    subst hp
    show DirTree.rootTree dot dotdot 0 0 ≠ none
    rw [DirTree.rootTree, Function.update_self]
    simp

/-- The calls in the state `s` behave as the operations on the tree `t`: lookups and reads
return what `t` has; a write to a file is read back; a call leaves every other name of every
directory as it was; and creation succeeds exactly under `CanCreate`. -/
structure Refines (s : FsState) (t : FsTree) : Prop where
  known : ∀ p ∈ s.known, t p.toNat ≠ none
  lookup : ∀ p, t p.toNat ≠ none → ∀ name,
    simplefsLookup s.io p name = lookupResult t p.toNat name
  read : ∀ p, t p.toNat ≠ none → ∀ name n,
    simplefsRead s.io p name n = some (readResult t p.toNat name n.toNat)
  write : ∀ p, t p.toNat ≠ none → ∀ name old, t.read p.toNat name = some old →
    ∀ buf size, size.toNat ≤ DIRECT_BLOCKS * 512 →
      (simplefsWrite s.io s.sb p name buf size).1 = 0 ∧
      ∀ n : UInt32, simplefsRead (simplefsWrite s.io s.sb p name buf size).2 p name n =
        some (((min n.toNat size.toNat : ℕ) : ℤ), (contentOf buf size).take n.toNat)
  others : ∀ c, s.allows c = true → ∀ q, t q.toNat ≠ none → ∀ name,
    (∀ op, c.op = some op → (q.toNat, name) ≠ op.target) →
      simplefsLookup (s.call c).2.io q name = simplefsLookup s.io q name ∧
      ∀ n, simplefsRead (s.call c).2.io q name n = simplefsRead s.io q name n
  create : ∀ p, t p.toNat ≠ none → ∀ name,
    (simplefsCreate s.io p name).1 = 0 ↔ CanCreate s.io p name
  mkdir : ∀ p, t p.toNat ≠ none → ∀ name,
    (simplefsMkdir s.io s.sb p name).1 = 0 ↔ CanCreate s.io p name

/-- A write to a file of the tree is read back. -/
theorem Ok.write_read {s : FsState} {t : FsTree} (h : s.Ok t) {p : UInt32}
    (hp : t p.toNat ≠ none) {name : CStr} {old : List UInt8}
    (hr : t.read p.toNat name = some old) (buf : ℕ → UInt8) {size : UInt32}
    (hsize : size.toNat ≤ 30 * 512) :
    (simplefsWrite s.io s.sb p name buf size).1 = 0 ∧
    ∀ n : UInt32, simplefsRead (simplefsWrite s.io s.sb p name buf size).2 p name n =
      some (((min n.toNat size.toNat : ℕ) : ℤ), (contentOf buf size).take n.toNat) := by
  have hlook := simplefsLookup_rep h.inv h.rep hp name
  unfold lookupResult at hlook
  cases hl : t.lookup p.toNat name with
  | none =>
      unfold DirTree.Tree.read at hr
      rw [hl] at hr
      cases hr
  | some k =>
      rw [hl] at hlook
      have hlook' : simplefsLookup s.io p name = (k : ℤ) := hlook
      have hk := h.wf.closed _ _ _ hl
      rcases h.rep.dir_or hk with ⟨e, he, _⟩ | ⟨c, hc, hf⟩
      · unfold DirTree.Tree.read at hr
        rw [hl, Option.bind_some, he] at hr
        cases hr
      · have hcu : (cUInt (simplefsLookup s.io p name)).toNat = k := by
          rw [hlook', cUInt_natCast, toNat_ofNat_lt hf.lt]
        have hnd : (inodeAt s.io.disk (cUInt (simplefsLookup s.io p name)).toNat).isDir = false := by
          rw [hcu]
          exact hf.file
        obtain ⟨h0, hself, hothers⟩ := simplefsWrite_file h.inv h.sb hlook' hf buf hsize
        have hinv := (simplefsWrite_safe h.inv h.sb p name buf size
          (h.target hp (Or.inr hnd))).inv h.inv
        have hstep : DirTree.Step dot dotdot t (.write p.toNat name (contentOf buf size)) true
            (t.write k (contentOf buf size)) := DirTree.Step.write hl hc
        refine ⟨h0, fun n => ?_⟩
        rw [simplefsRead_rep hinv (h.rep.write hself hothers) (hstep.wf h.wf) (hstep.mono hp)]
        unfold readResult
        rw [DirTree.read_write hl hc]
        simp only [length_contentOf]

/-- A call leaves what is found under other names alone. -/
theorem Ok.others {s : FsState} {t : FsTree} (h : s.Ok t) {c : FsCall} (hc : s.allows c = true)
    {q : UInt32} (hq : t q.toNat ≠ none) {name : CStr}
    (hne : ∀ op, c.op = some op → (q.toNat, name) ≠ op.target) :
    simplefsLookup (s.call c).2.io q name = simplefsLookup s.io q name ∧
    ∀ n, simplefsRead (s.call c).2.io q name n = simplefsRead s.io q name n := by
  rcases h.call hc with ⟨_, hio, _⟩ | ⟨op, t', hop, hs, h'⟩
  · rw [hio]
    exact ⟨rfl, fun _ => rfl⟩
  · have hlook := hs.lookup_other hq (hne op hop)
    have hread := hs.read_other h.wf hq (hne op hop)
    constructor
    · rw [simplefsLookup_rep h'.inv h'.rep (hs.mono hq), simplefsLookup_rep h.inv h.rep hq]
      unfold lookupResult
      rw [hlook]
    · intro n
      rw [simplefsRead_rep h'.inv h'.rep h'.wf (hs.mono hq),
        simplefsRead_rep h.inv h.rep h.wf hq]
      unfold readResult
      rw [hread]

theorem Ok.refines {s : FsState} {t : FsTree} (h : s.Ok t) : s.Refines t where
  known := h.known
  lookup _ hp name := simplefsLookup_rep h.inv h.rep hp name
  read _ hp name n := simplefsRead_rep h.inv h.rep h.wf hp name n
  write _ hp _ _ hr buf _ hsize := h.write_read hp hr buf hsize
  others _ hc _ hq _ hne := h.others hc hq hne
  create _ hp name := simplefsCreate_eq_zero_iff h.inv (h.parent hp) name
  mkdir _ hp name := simplefsMkdir_eq_zero_iff h.inv h.sb (h.parent hp) name

end FsState

/-- **The file system refines a directory tree.**  Every run from a format is a run of the tree
that starts with the root alone, and in the state it reaches the calls behave as the operations
on the tree. -/
theorem run_refines_tree (d : Disk) (hd : needsFormat d = true) (cs : List FsCall) :
    ∃ t : FsTree,
      DirTree.Run dot dotdot (DirTree.rootTree dot dotdot 0) ((FsState.init d).trace cs) t ∧
      ((FsState.init d).run cs).Refines t := by
  obtain ⟨t, hrun, hok⟩ := (FsState.Ok.init hd).run cs
  exact ⟨t, hrun, hok.refines⟩

/-- The run that makes a directory and writes a file in it, on a blank disk. -/
theorem run_refines_tree_blank : needsFormat (fun _ => Buf.zero) = true ∧ ∃ t : FsTree,
    DirTree.Run dot dotdot (DirTree.rootTree dot dotdot 0)
      ((FsState.init fun _ => Buf.zero).trace [.mkdir 0 ⟨[97], by decide⟩,
        .lookup 0 ⟨[97], by decide⟩, .create 1 ⟨[98], by decide⟩,
        .write 1 ⟨[98], by decide⟩ (fun _ => 7) 600]) t ∧
    ((FsState.init fun _ => Buf.zero).run [.mkdir 0 ⟨[97], by decide⟩,
        .lookup 0 ⟨[97], by decide⟩, .create 1 ⟨[98], by decide⟩,
        .write 1 ⟨[98], by decide⟩ (fun _ => 7) 600]).Refines t :=
  ⟨by decide, run_refines_tree _ (by decide) _⟩

end NosmeriOs.SimpleFs
