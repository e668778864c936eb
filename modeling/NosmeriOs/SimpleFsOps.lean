import NosmeriOs.SimpleFsInvariant

/-! # What the file-system calls write

Each call of `SimpleFs.lean` is a chain of the writes of `Step` (`SafeRun`), whatever its
arguments, provided the directory it is given is one of the tree or no directory at all.
Since a prefix of a chain is a chain, this covers a call cut off between any two writes.

For every call a `_cases` theorem lists all it can do, with the guards of each outcome and
the exact device state it ends in; `_safe` reads off that each outcome is a chain. -/

namespace NosmeriOs.SimpleFs

open Bytes

/-! ### Chains of writes -/

/-- Issue one write. -/
def Io.write (io : Io) (w : SectorWrite) : Io := ⟨w.apply io.disk, io.log ++ [w]⟩

/-- Issue the writes `ws` in order. -/
def Io.replay (io : Io) (ws : List SectorWrite) : Io := ws.foldl Io.write io

theorem ataWriteSector_eq (io : Io) (p : Purpose) (lba : ℕ) (s : Sector) :
    ataWriteSector io p lba s = io.write ⟨p, lba, s⟩ := rfl

theorem Io.replay_append (io : Io) (ws vs : List SectorWrite) :
    io.replay (ws ++ vs) = (io.replay ws).replay vs := List.foldl_append

theorem Io.log_replay (io : Io) (ws : List SectorWrite) : (io.replay ws).log = io.log ++ ws := by
  induction ws generalizing io with
  | nil => simp [Io.replay]
  | cons w ws ih =>
      have := ih (io.write w)
      simp only [Io.replay, List.foldl_cons] at this ⊢
      rw [this]
      simp [Io.write]

/-- Each of the writes is one of `Step` on the disk left by those before it. -/
inductive Safe : Disk → List SectorWrite → Prop
  | nil (d : Disk) : Safe d []
  | cons {d : Disk} {w : SectorWrite} {ws : List SectorWrite} :
      Step d w → Safe (w.apply d) ws → Safe d (w :: ws)

theorem Safe.append {io : Io} {ws vs : List SectorWrite} (h : Safe io.disk ws)
    (h' : Safe (io.replay ws).disk vs) : Safe io.disk (ws ++ vs) := by
  induction ws generalizing io with
  | nil => exact h'
  | cons w ws ih =>
      cases h with
      | cons hw hws =>
          have hrest : Safe (io.write w).disk (ws ++ vs) := ih hws h'
          exact Safe.cons hw hrest

theorem Safe.take {d : Disk} {ws : List SectorWrite} (h : Safe d ws) (k : ℕ) :
    Safe d (ws.take k) := by
  induction h generalizing k with
  | nil d => simpa using Safe.nil d
  | cons hw _ ih =>
      cases k with
      | zero => exact Safe.nil _
      | succ k => exact Safe.cons hw (ih k)

/-- `io'` is `io` after a chain of writes. -/
def SafeRun (io io' : Io) : Prop := ∃ ws, Safe io.disk ws ∧ io' = io.replay ws

theorem SafeRun.refl (io : Io) : SafeRun io io := ⟨[], Safe.nil _, rfl⟩

theorem SafeRun.step {io : Io} {w : SectorWrite} (h : Step io.disk w) :
    SafeRun io (io.write w) := ⟨[w], Safe.cons h (Safe.nil _), rfl⟩

theorem SafeRun.trans {io₁ io₂ io₃ : Io} (h : SafeRun io₁ io₂) (h' : SafeRun io₂ io₃) :
    SafeRun io₁ io₃ := by
  obtain ⟨ws, hs, rfl⟩ := h
  obtain ⟨vs, hs', rfl⟩ := h'
  exact ⟨ws ++ vs, hs.append hs', (Io.replay_append io₁ ws vs).symm⟩

/-- A chain keeps the invariant, only adds to the tree, and writes tables and data only to
the data area. -/
theorem Safe.inv {io : Io} {ws : List SectorWrite} (h : Safe io.disk ws) (hi : FsInv io.disk) :
    FsInv (io.replay ws).disk ∧ Grows io.disk (io.replay ws).disk ∧
      ∀ w ∈ ws, w.purpose = .dirTable ∨ w.purpose = .data → 17 ≤ w.lba := by
  induction ws generalizing io with
  | nil => exact ⟨hi, Grows.refl _, fun w hw => by simp at hw⟩
  | cons w ws ih =>
      cases h with
      | cons hw hws =>
          have hinv : FsInv (io.write w).disk := hw.inv hi
          obtain ⟨h1, h2, h3⟩ := ih hws hinv
          refine ⟨h1, (hw.grows hi).trans h2, ?_⟩
          intro v hv hp
          rcases List.mem_cons.mp hv with rfl | hv
          · exact hw.lba_ge hi.blocks hp
          · exact h3 v hv hp

theorem SafeRun.inv {io io' : Io} (h : SafeRun io io') (hi : FsInv io.disk) : FsInv io'.disk := by
  obtain ⟨ws, hs, rfl⟩ := h
  exact (hs.inv hi).1

theorem SafeRun.grows {io io' : Io} (h : SafeRun io io') (hi : FsInv io.disk) :
    Grows io.disk io'.disk := by
  obtain ⟨ws, hs, rfl⟩ := h
  exact (hs.inv hi).2.1

/-! ### Conversions of small indices -/

theorem cInt_of_lt {w : UInt32} (h : w.toNat < 64) : cInt w = (w.toNat : ℤ) := by
  unfold cInt
  rw [BitVec.toInt_eq_toNat_of_lt]
  · rfl
  · show 2 * w.toNat < 2 ^ 32
    omega

theorem cUInt_natCast (k : ℕ) : cUInt (k : ℤ) = UInt32.ofNat k := by
  unfold cUInt
  rw [BitVec.ofInt_natCast]
  rfl

theorem toNat_ofNat_lt {k : ℕ} (h : k < 64) : (UInt32.ofNat k).toNat = k := by
  rw [UInt32.toNat_ofNat', Nat.mod_eq_of_lt (by omega)]

/-! ### Lookup -/

/-- No entry of directory `i` has the name `s`. -/
def Absent (d : Disk) (i : ℕ) (s : CStr) : Prop :=
  ∀ j < 16, (slot d i j).isPresent = true → ¬ (slot d i j).HasName s

/-- The comparison of `simplefs_lookup` decides whether an entry has the name. -/
theorem strcmp_slot_iff {d : Disk} (h : TreeInv d) {i j : ℕ} (hi : IsDirectory d i) (hj : j < 16)
    (hp : (slot d i j).isPresent = true) (name : CStr) :
    CStr.strcmp (fun k => (d (dirBlock d i)).get (32 * j + 4 + k)) name = 0 ↔
      (slot d i j).HasName name := by
  obtain ⟨⟨s, hs⟩, _⟩ := h.entry i hi j hj hp
  have hold : CStr.Holds (fun k => (d (dirBlock d i)).get (32 * j + 4 + k)) s := by
    refine hs.2.congr fun k hk => ?_
    exact (filename_getEntry _ _ (lt_of_le_of_lt hk hs.1)).symm
  rw [CStr.strcmp_eq_zero_iff]
  constructor
  · intro hn
    rw [hn.unique hold]
    exact hs
  · intro hn
    rw [hn.unique hs]
    exact hold

theorem simplefsLookup_eq (io : Io) (k : UInt32) (name : CStr) : simplefsLookup io k name =
    if !(inodeAt io.disk k.toNat).isDir then -1
    else match (List.range 16).find? fun i => (slot io.disk k.toNat i).isPresent &&
        CStr.strcmp (fun m => (io.disk (dirBlock io.disk k.toNat)).get (32 * i + 4 + m)) name == 0
      with
      | some i => cInt (slot io.disk k.toNat i).inodeIdx
      | none => -1 := rfl

theorem simplefsLookup_of_not_dir {io : Io} {k : UInt32} (name : CStr)
    (h : (inodeAt io.disk k.toNat).isDir = false) : simplefsLookup io k name = -1 := by
  rw [simplefsLookup_eq, h]
  rfl

/-- What `simplefs_lookup` finds in a directory of the tree. -/
theorem simplefsLookup_cases {io : Io} (h : TreeInv io.disk) {k : UInt32}
    (hk : IsDirectory io.disk k.toNat) (name : CStr) :
    (simplefsLookup io k name = -1 ∧ Absent io.disk k.toNat name) ∨
    ∃ j < 16, (slot io.disk k.toNat j).isPresent = true ∧ (slot io.disk k.toNat j).HasName name ∧
      simplefsLookup io k name = cInt (slot io.disk k.toNat j).inodeIdx ∧
      simplefsLookup io k name = ((slot io.disk k.toNat j).inodeIdx.toNat : ℤ) := by
  rw [simplefsLookup_eq, hk.dir]
  simp only [Bool.not_true, Bool.false_eq_true, if_false]
  cases hf : (List.range 16).find? fun i => (slot io.disk k.toNat i).isPresent &&
      CStr.strcmp (fun m => (io.disk (dirBlock io.disk k.toNat)).get (32 * i + 4 + m)) name == 0 with
  | none =>
      left
      refine ⟨rfl, fun j hj hp hn => ?_⟩
      rw [List.find?_eq_none] at hf
      apply hf j (List.mem_range.mpr hj)
      rw [Bool.and_eq_true, beq_iff_eq]
      exact ⟨hp, (strcmp_slot_iff h hk hj hp name).mpr hn⟩
  | some j =>
      right
      have hmem := List.mem_of_find?_eq_some hf
      have hj : j < 16 := List.mem_range.mp hmem
      have hprop := List.find?_some hf
      rw [Bool.and_eq_true, beq_iff_eq] at hprop
      have hp : (slot io.disk k.toNat j).isPresent = true := hprop.1
      have hn := (strcmp_slot_iff h hk hj hp name).mp hprop.2
      exact ⟨j, hj, hp, hn, rfl, cInt_of_lt (h.entry _ hk j hj hp).2.1⟩

/-- A lookup in a directory of the tree answers `-1` exactly when the name is absent. -/
theorem simplefsLookup_eq_neg_one_iff {io : Io} (h : TreeInv io.disk) {k : UInt32}
    (hk : IsDirectory io.disk k.toNat) (name : CStr) :
    simplefsLookup io k name = -1 ↔ Absent io.disk k.toNat name := by
  rcases simplefsLookup_cases h hk name with ⟨h1, h2⟩ | ⟨j, hj, hp, hn, _, h1⟩
  · exact ⟨fun _ => h2, fun _ => h1⟩
  · rw [h1]
    refine ⟨fun he => ?_, fun ha => absurd hn (ha j hj hp)⟩
    omega

/-- The entry with a given name is what a lookup finds. -/
theorem simplefsLookup_of_hasName {io : Io} (h : TreeInv io.disk) {k : UInt32}
    (hk : IsDirectory io.disk k.toNat) {name : CStr} {j : ℕ} (hj : j < 16)
    (hp : (slot io.disk k.toNat j).isPresent = true)
    (hn : (slot io.disk k.toNat j).HasName name) :
    simplefsLookup io k name = cInt (slot io.disk k.toNat j).inodeIdx := by
  rcases simplefsLookup_cases h hk name with ⟨_, h2⟩ | ⟨j', hj', hp', hn', h1, _⟩
  · exact absurd hn (h2 j hj hp)
  · rw [h1, h.names _ hk j hj j' hj' hp hp' name hn hn']

/-! ### Adding an entry -/

/-- The write that stores the name `s` for inode `k` in slot `j` of directory `i`. -/
def linkWrite (d : Disk) (i j : ℕ) (k : UInt32) (s : CStr) : SectorWrite :=
  ⟨.dirTable, dirBlock d i, setEntry (d (dirBlock d i)) j (mkEntry (slot d i j).filename k s)⟩

theorem addDirEntry_eq (io : Io) (i : ℕ) (k : UInt32) (s : CStr) :
    addDirEntry io ((inodeAt io.disk i).block 0) k s =
      match (List.range 16).find? fun j => !(slot io.disk i j).isPresent with
      | none => (-1, io)
      | some j => (0, io.write (linkWrite io.disk i j k s)) := rfl

theorem addDirEntry_cases (io : Io) (i : ℕ) (k : UInt32) (s : CStr) :
    ((∀ j < 16, (slot io.disk i j).isPresent = true) ∧
      addDirEntry io ((inodeAt io.disk i).block 0) k s = (-1, io)) ∨
    ∃ j < 16, (slot io.disk i j).isPresent = false ∧
      addDirEntry io ((inodeAt io.disk i).block 0) k s =
        (0, io.write (linkWrite io.disk i j k s)) := by
  rw [addDirEntry_eq]
  cases hf : (List.range 16).find? fun j => !(slot io.disk i j).isPresent with
  | none =>
      left
      refine ⟨fun j hj => ?_, rfl⟩
      rw [List.find?_eq_none] at hf
      simpa using hf j (List.mem_range.mpr hj)
  | some j =>
      right
      have hj := List.mem_range.mp (List.mem_of_find?_eq_some hf)
      have hprop := List.find?_some hf
      exact ⟨j, hj, by simpa using hprop, rfl⟩

/-! ### `create` -/

/-- A name the file system accepts. -/
def NameOk (s : CStr) : Prop := s.strlen < 28 ∧ s.strlen ≠ 0

/-- The device after `allocate_free_inode` took inode `k`. -/
def Io.take (io : Io) (k : ℕ) (flags : UInt32) : Io :=
  io.write (inodeWrite io.disk k (Inode.fresh flags))

theorem Io.take_disk (io : Io) (k : ℕ) (flags : UInt32) :
    (io.take k flags).disk = putInode io.disk k (Inode.fresh flags) := rfl

theorem sameTree_take {io : Io} (h : FsInv io.disk) {k : ℕ} (hk : k < 64)
    (hfree : (inodeAt io.disk k).isUsed = false) (flags : UInt32)
    (hflags : (Inode.fresh flags).isUsed = true) : SameTree io.disk (io.take k flags).disk := by
  refine sameTree_putInode h.blocks hk (fun hd => ?_) hflags (fun _ => by simp) (fun hu => ?_)
  · rw [hd.used] at hfree
    cases hfree
  · rw [hu] at hfree
    cases hfree

/-- Taking an inode leaves a directory's inode alone. -/
theorem block_take {io : Io} {p k : ℕ} (hp : IsDirectory io.disk p)
    (hfree : (inodeAt io.disk k).isUsed = false) {flags : UInt32} :
    (inodeAt io.disk p).block 0 = (inodeAt (io.take k flags).disk p).block 0 := by
  have hkp : p ≠ k := by
    intro he
    rw [← he, hp.used] at hfree
    cases hfree
  rw [Io.take_disk, inodeAt_putInode_ne _ _ hkp]

theorem simplefsCreate_eq (io : Io) (p : UInt32) (name : CStr) : simplefsCreate io p name =
    if MAX_FILENAME ≤ name.strlen ∨ name.strlen = 0 then (-1, io)
    else if !(inodeAt io.disk p.toNat).isDir then (-1, io)
    else if simplefsLookup io p name ≠ -1 then (-1, io)
    else if (allocateFreeInode io INODE_USED).1 = -1 then (-1, (allocateFreeInode io INODE_USED).2)
    else if (addDirEntry (allocateFreeInode io INODE_USED).2 ((inodeAt io.disk p.toNat).block 0)
        (cUInt (allocateFreeInode io INODE_USED).1) name).1 ≠ 0 then
      (-1, (addDirEntry (allocateFreeInode io INODE_USED).2 ((inodeAt io.disk p.toNat).block 0)
        (cUInt (allocateFreeInode io INODE_USED).1) name).2)
    else (0, (addDirEntry (allocateFreeInode io INODE_USED).2 ((inodeAt io.disk p.toNat).block 0)
        (cUInt (allocateFreeInode io INODE_USED).1) name).2) := rfl

theorem simplefsCreate_of_not_dir {io : Io} {p : UInt32} (name : CStr)
    (h : (inodeAt io.disk p.toNat).isDir = false) : simplefsCreate io p name = (-1, io) := by
  rw [simplefsCreate_eq, h]
  simp

/-- Everything `simplefs_create` can do in a directory of the tree. -/
theorem simplefsCreate_cases {io : Io} (h : FsInv io.disk) {p : UInt32}
    (hp : IsDirectory io.disk p.toNat) (name : CStr) :
    (¬ (NameOk name ∧ Absent io.disk p.toNat name ∧ ∃ k < 64, (inodeAt io.disk k).isUsed = false) ∧
      simplefsCreate io p name = (-1, io)) ∨
    (NameOk name ∧ Absent io.disk p.toNat name ∧
      ∃ k < 64, (inodeAt io.disk k).isUsed = false ∧
        (((∀ j < 16, (slot io.disk p.toNat j).isPresent = true) ∧
          simplefsCreate io p name = (-1, io.take k INODE_USED)) ∨
        ∃ j < 16, (slot io.disk p.toNat j).isPresent = false ∧
          simplefsCreate io p name = (0, (io.take k INODE_USED).write
            (linkWrite (io.take k INODE_USED).disk p.toNat j (UInt32.ofNat k) name)))) := by
  by_cases hname : MAX_FILENAME ≤ name.strlen ∨ name.strlen = 0
  · left
    refine ⟨fun hc => ?_, ?_⟩
    · obtain ⟨h1, h2⟩ := hc.1
      simp only [MAX_FILENAME] at hname
      omega
    · rw [simplefsCreate_eq, if_pos hname]
  have hok : NameOk name := by
    simp only [MAX_FILENAME] at hname
    exact ⟨by omega, by omega⟩
  rw [simplefsCreate_eq, if_neg hname, hp.dir]
  simp only [Bool.not_true, Bool.false_eq_true, if_false]
  by_cases hl : simplefsLookup io p name = -1
  · have habs := (simplefsLookup_eq_neg_one_iff h.tree hp name).mp hl
    rw [if_neg (not_not.mpr hl)]
    rcases allocateFreeInode_cases io INODE_USED with ⟨ha, hall⟩ | ⟨k, hk, hfree, ha⟩
    · left
      refine ⟨fun hc => ?_, by rw [ha]; rfl⟩
      obtain ⟨k, hk, hfree⟩ := hc.2.2
      rw [hall k hk] at hfree
      cases hfree
    · right
      refine ⟨hok, habs, k, hk, hfree, ?_⟩
      have hst := sameTree_take h hk hfree INODE_USED (by decide)
      have hne : (k : ℤ) ≠ -1 := by omega
      have ha' : allocateFreeInode io INODE_USED = ((k : ℤ), io.take k INODE_USED) := ha
      rw [ha', if_neg hne, cUInt_natCast, block_take hp hfree]
      have hslot : ∀ j, slot (io.take k INODE_USED).disk p.toNat j = slot io.disk p.toNat j :=
        hst.slots _ hp
      rcases addDirEntry_cases (io.take k INODE_USED) p.toNat (UInt32.ofNat k) name with
        ⟨hfull, he⟩ | ⟨j, hj, hempty, he⟩
      · left
        refine ⟨fun j hj => ?_, by rw [he]; rfl⟩
        rw [← hslot]
        exact hfull j hj
      · right
        refine ⟨j, hj, ?_, by rw [he]; rfl⟩
        rw [← hslot]
        exact hempty
  · left
    refine ⟨fun hc => hl ((simplefsLookup_eq_neg_one_iff h.tree hp name).mpr hc.2.1), ?_⟩
    rw [if_pos hl]

/-- The last write of `create` and `mkdir`: the new inode `k`, which nothing names, is entered
in an empty slot of its parent. -/
theorem step_link {d : Disk} {p j k : ℕ} {name : CStr} (hp : IsDirectory d p) (hj : j < 16)
    (hempty : (slot d p j).isPresent = false) (hname : NameOk name) (habs : Absent d p name)
    (hk : k < 64) (hk0 : k ≠ 0) (hused : (inodeAt d k).isUsed = true)
    (hunnamed : ∀ i' j', ¬ Child d i' j' k)
    (hdir : (inodeAt d k).isDir = true → IsDirectory d k ∧ (slot d k 1).inodeIdx.toNat = p) :
    Step d (linkWrite d p j (UInt32.ofNat k) name) := by
  have e := toNat_ofNat_lt hk
  refine Step.link p j (UInt32.ofNat k) name hp hj hempty hname.1 hname.2 habs ?_ ?_ ?_ ?_ ?_
  all_goals rw [e]
  all_goals assumption

/-- An inode that is not in use is not the root and has no name. -/
theorem TreeInv.unnamed_of_free {d : Disk} (h : TreeInv d) {k : ℕ}
    (hfree : (inodeAt d k).isUsed = false) : k ≠ 0 ∧ ∀ i j, ¬ Child d i j k := by
  constructor
  · rintro rfl
    rw [h.root.used] at hfree
    cases hfree
  · intro i j hc
    rw [(h.child_used hc).2] at hfree
    cases hfree

theorem simplefsCreate_safe {io : Io} (h : FsInv io.disk) {p : UInt32}
    (hp : IsDirectory io.disk p.toNat ∨ (inodeAt io.disk p.toNat).isDir = false) (name : CStr) :
    SafeRun io (simplefsCreate io p name).2 := by
  rcases hp with hp | hp
  swap
  · rw [simplefsCreate_of_not_dir name hp]
    exact SafeRun.refl io
  rcases simplefsCreate_cases h hp name with ⟨_, he⟩ | ⟨hname, habs, k, hk, hfree, hcase⟩
  · rw [he]
    exact SafeRun.refl io
  have htake : SafeRun io (io.take k INODE_USED) :=
    SafeRun.step (Step.takeInode k INODE_USED hk hfree (by decide))
  rcases hcase with ⟨_, he⟩ | ⟨j, hj, hempty, he⟩
  · rw [he]
    exact htake
  · rw [he]
    refine htake.trans (SafeRun.step ?_)
    have hst := sameTree_take h hk hfree INODE_USED (by decide)
    obtain ⟨hk0, hun⟩ := h.tree.unnamed_of_free hfree
    have hnew : inodeAt (io.take k INODE_USED).disk k = Inode.fresh INODE_USED := by
      rw [Io.take_disk, inodeAt_putInode_same]
    refine step_link ((hst.dirs _).mpr hp) hj (by rw [hst.slots _ hp]; exact hempty) hname ?_ hk hk0
      (by rw [hnew]; rfl) (fun i' j' hc => hun i' j' (hst.child_iff.mp hc)) ?_
    · intro j' hj' hpr
      rw [hst.slots _ hp] at hpr ⊢
      exact habs j' hj' hpr
    · rw [hnew]
      intro hd
      cases hd

/-! ### `mkdir` -/

/-- The device after `mkdir` took inode `k` and stored the table of the new directory. -/
def Io.tabled (io : Io) (sb : Superblock) (k : ℕ) (p : UInt32) : Io :=
  (io.take k (INODE_USED ||| INODE_DIR)).write
    ⟨.dirTable, (findFreeDataBlock (io.take k (INODE_USED ||| INODE_DIR)) sb).toNat,
      newTable (UInt32.ofNat k) p⟩

/-- The device after `mkdir` built the directory `k`, before it is named. -/
def Io.makeDir (io : Io) (sb : Superblock) (k : ℕ) (p : UInt32) : Io :=
  (io.tabled sb k p).write (inodeWrite (io.tabled sb k p).disk k
    ((inodeAt (io.tabled sb k p).disk k).setBlock 0
      (findFreeDataBlock (io.take k (INODE_USED ||| INODE_DIR)) sb)))

section makeDir
variable {io : Io} {sb : Superblock} {k : ℕ} {p : UInt32}

/-- The block of the new directory. -/
def newDirBlock (io : Io) (sb : Superblock) (k : ℕ) : UInt32 :=
  findFreeDataBlock (io.take k (INODE_USED ||| INODE_DIR)) sb

theorem isFreeBlock_newDirBlock (hsb : sb.dataBlockStart = 17) :
    IsFreeBlock (io.take k (INODE_USED ||| INODE_DIR)).disk (newDirBlock io sb k) :=
  ⟨(findFreeDataBlock_range _ hsb).1, (findFreeDataBlock_range _ hsb).2,
    not_owned_findFreeDataBlock _ _⟩

theorem tabled_disk : (io.tabled sb k p).disk = Function.update
    (io.take k (INODE_USED ||| INODE_DIR)).disk (newDirBlock io sb k).toNat
      (newTable (UInt32.ofNat k) p) := rfl

theorem makeDir_disk : (io.makeDir sb k p).disk = putInode (io.tabled sb k p).disk k
    ((inodeAt (io.tabled sb k p).disk k).setBlock 0 (newDirBlock io sb k)) := rfl

theorem inodeAt_tabled (hsb : sb.dataBlockStart = 17) {m : ℕ} (hm : m < 64) :
    inodeAt (io.tabled sb k p).disk m = inodeAt (io.take k (INODE_USED ||| INODE_DIR)).disk m := by
  rw [tabled_disk, inodeAt_update _ _ hm (isFreeBlock_newDirBlock hsb).ge]

theorem inodeAt_tabled_self (hsb : sb.dataBlockStart = 17) (hk : k < 64) :
    inodeAt (io.tabled sb k p).disk k = Inode.fresh (INODE_USED ||| INODE_DIR) := by
  rw [inodeAt_tabled hsb hk, Io.take_disk, inodeAt_putInode_same]

theorem isFreeBlock_tabled (hsb : sb.dataBlockStart = 17) :
    IsFreeBlock (io.tabled sb k p).disk (newDirBlock io sb k) := by
  have hb : IsFreeBlock (io.take k (INODE_USED ||| INODE_DIR)).disk (newDirBlock io sb k) :=
    isFreeBlock_newDirBlock hsb
  refine ⟨hb.ge, hb.lt, ?_⟩
  rintro ⟨i, hi, hu, j, hj, he⟩
  rw [inodeAt_tabled hsb hi] at hu he
  exact hb.free ⟨i, hi, hu, j, hj, he⟩

/-- The directories, entries and inodes of the device left by the steps of `mkdir` before it
names the new directory. -/
structure MakeDirSpec (io : Io) (sb : Superblock) (k : ℕ) (p : UInt32) : Prop where
  run : SafeRun io (io.makeDir sb k p)
  dirs : ∀ i, IsDirectory (io.makeDir sb k p).disk i ↔ IsDirectory io.disk i ∨ i = k
  slots : ∀ i, IsDirectory io.disk i → ∀ j, slot (io.makeDir sb k p).disk i j = slot io.disk i j
  self : ∀ j, slot (io.makeDir sb k p).disk k j = getEntry (newTable (UInt32.ofNat k) p) j
  child : ∀ i j m, Child (io.makeDir sb k p).disk i j m → Child io.disk i j m ∧ m ≠ k
  inode : ∀ m < 64, inodeAt (io.makeDir sb k p).disk m = if m = k then
    (Inode.fresh (INODE_USED ||| INODE_DIR)).setBlock 0 (newDirBlock io sb k)
    else inodeAt io.disk m
  data : ∀ b, 17 ≤ b → b ≠ (newDirBlock io sb k).toNat →
    (io.makeDir sb k p).disk b = io.disk b

theorem makeDir_spec (h : FsInv io.disk) (hsb : sb.dataBlockStart = 17) (hk : k < 64)
    (hfree : (inodeAt io.disk k).isUsed = false) (hp : IsDirectory io.disk p.toNat) :
    MakeDirSpec io sb k p := by
  have htake : SafeRun io (io.take k (INODE_USED ||| INODE_DIR)) :=
    SafeRun.step (Step.takeInode k _ hk hfree (by decide))
  have htable : SafeRun io (io.tabled sb k p) := htake.trans
    (SafeRun.step (Step.writeTable _ _ (isFreeBlock_newDirBlock hsb)))
  have hinv := htable.inv h
  have hst₁ := sameTree_take h hk hfree (INODE_USED ||| INODE_DIR) (by decide)
  have hb : IsFreeBlock (io.take k (INODE_USED ||| INODE_DIR)).disk (newDirBlock io sb k) :=
    isFreeBlock_newDirBlock hsb
  have hst₂ : SameTree (io.take k (INODE_USED ||| INODE_DIR)).disk (io.tabled sb k p).disk :=
    sameTree_update hb.ge _ fun i hi he =>
      hb.free ⟨i, hi.lt, hi.used, 0, by omega, UInt32.toNat.inj he⟩
  have hself : inodeAt (io.tabled sb k p).disk k = Inode.fresh (INODE_USED ||| INODE_DIR) :=
    inodeAt_tabled_self hsb hk
  have hused : (inodeAt (io.tabled sb k p).disk k).isUsed = true := by rw [hself]; rfl
  have hdir : (inodeAt (io.tabled sb k p).disk k).isDir = true := by rw [hself]; rfl
  have hnone : (inodeAt (io.tabled sb k p).disk k).block 0 = 0 := by rw [hself]; simp
  have hb' : IsFreeBlock (io.tabled sb k p).disk (newDirBlock io sb k) := isFreeBlock_tabled hsb
  have htab : (io.tabled sb k p).disk (newDirBlock io sb k).toNat =
      newTable (UInt32.ofNat k) p := by
    rw [tabled_disk, Function.update_self]
  have hdirs₂ : ∀ i, IsDirectory (io.tabled sb k p).disk i ↔ IsDirectory io.disk i := fun i =>
    (hst₂.dirs i).trans (hst₁.dirs i)
  have hslots₂ : ∀ i, IsDirectory io.disk i → ∀ j,
      slot (io.tabled sb k p).disk i j = slot io.disk i j := fun i hi j =>
    (hst₂.slots i ((hst₁.dirs i).mpr hi) j).trans (hst₁.slots i hi j)
  refine ⟨?_, ?_, ?_, ?_, ?_, ?_, ?_⟩
  · exact htable.trans (SafeRun.step (Step.setTable k _ p hk hused hdir hnone hb' htab
      ((hdirs₂ _).mpr hp)))
  · intro i
    rw [makeDir_disk, isDirectory_setTable hk hused hdir hb', hdirs₂]
  · intro i hi j
    rw [makeDir_disk, slot_setTable_old hinv.blocks hk hnone ((hdirs₂ i).mpr hi), hslots₂ i hi]
  · intro j
    rw [makeDir_disk, slot_setTable_new hk hb' htab]
  · intro i j m hc
    obtain ⟨hc', hmk⟩ := child_setTable hinv.blocks hinv.tree hk hused hdir hnone hb' htab hc
    exact ⟨hst₁.child_iff.mp (hst₂.child_iff.mp hc'), hmk⟩
  · intro m hm
    rw [makeDir_disk, inodeAt_putInode]
    split_ifs with hmk
    · rw [hself]
    · rw [inodeAt_tabled hsb hm, Io.take_disk, inodeAt_putInode_ne _ _ hmk]
  · intro b hb17 hne
    rw [makeDir_disk, putInode_data _ _ hk (Or.inr hb17), tabled_disk, Function.update_of_ne hne,
      Io.take_disk, putInode_data _ _ hk (Or.inr hb17)]

end makeDir

/-- The early exits of `mkdir`. -/
theorem simplefsMkdir_of_reject {io : Io} {sb : Superblock} {p : UInt32} {name : CStr}
    (h : (MAX_FILENAME ≤ name.strlen ∨ name.strlen = 0) ∨
      (inodeAt io.disk p.toNat).isDir = false ∨ simplefsLookup io p name ≠ -1) :
    simplefsMkdir io sb p name = (-1, io) := by
  unfold simplefsMkdir
  by_cases h1 : MAX_FILENAME ≤ name.strlen ∨ name.strlen = 0
  · rw [if_pos h1]
  rw [if_neg h1, readInode_eq]
  by_cases h2 : (inodeAt io.disk p.toNat).isDir = false
  · simp [h2]
  · have h3 : simplefsLookup io p name ≠ -1 := by
      rcases h with h | h | h
      · exact absurd h h1
      · exact absurd h h2
      · exact h
    simp [h2, h3]

/-- `mkdir` past its checks. -/
theorem simplefsMkdir_of_accept {io : Io} (sb : Superblock) {p : UInt32} {name : CStr}
    (h1 : ¬ (MAX_FILENAME ≤ name.strlen ∨ name.strlen = 0))
    (h2 : (inodeAt io.disk p.toNat).isDir = true) (h3 : simplefsLookup io p name = -1) :
    (∀ io', allocateFreeInode io (INODE_USED ||| INODE_DIR) = (-1, io') →
      simplefsMkdir io sb p name = (-1, io')) ∧
    ∀ k : ℕ, k < 64 → allocateFreeInode io (INODE_USED ||| INODE_DIR) =
        ((k : ℤ), io.take k (INODE_USED ||| INODE_DIR)) →
      ∀ r io', addDirEntry (io.makeDir sb k p) ((inodeAt io.disk p.toNat).block 0)
          (UInt32.ofNat k) name = (r, io') →
        simplefsMkdir io sb p name = (if r ≠ 0 then -1 else 0, io') := by
  constructor
  · intro io' ha
    unfold simplefsMkdir
    rw [if_neg h1, readInode_eq]
    simp [h2, h3, ha]
  · intro k hk ha r io' hr
    have hne : (k : ℤ) ≠ -1 := by omega
    unfold simplefsMkdir
    rw [if_neg h1, readInode_eq]
    simp only [h2, h3, ha, hne, Bool.not_true, Bool.false_eq_true, if_false, ne_eq,
      not_true_eq_false, cUInt_natCast]
    rw [Io.makeDir, Io.tabled] at hr
    simp only [readInode_eq, writeInode_eq, ataWriteSector_eq, toNat_ofNat_lt hk]
    rw [show inodeWrite = fun d k n => (⟨.inodeTable, inodeSector k,
      setInode (d (inodeSector k)) (k % 4) n⟩ : SectorWrite) from rfl] at hr
    rw [hr]
    by_cases h0 : r = 0
    · simp [h0]
    · simp [h0]

/-- Everything `simplefs_mkdir` can do in a directory of the tree. -/
theorem simplefsMkdir_cases {io : Io} {sb : Superblock} (h : FsInv io.disk)
    (hsb : sb.dataBlockStart = 17) {p : UInt32} (hp : IsDirectory io.disk p.toNat) (name : CStr) :
    (¬ (NameOk name ∧ Absent io.disk p.toNat name ∧ ∃ k < 64, (inodeAt io.disk k).isUsed = false) ∧
      simplefsMkdir io sb p name = (-1, io)) ∨
    (NameOk name ∧ Absent io.disk p.toNat name ∧
      ∃ k < 64, (inodeAt io.disk k).isUsed = false ∧
        (((∀ j < 16, (slot io.disk p.toNat j).isPresent = true) ∧
          simplefsMkdir io sb p name = (-1, io.makeDir sb k p)) ∨
        ∃ j < 16, (slot io.disk p.toNat j).isPresent = false ∧
          simplefsMkdir io sb p name = (0, (io.makeDir sb k p).write
            (linkWrite (io.makeDir sb k p).disk p.toNat j (UInt32.ofNat k) name)))) := by
  by_cases hname : MAX_FILENAME ≤ name.strlen ∨ name.strlen = 0
  · left
    refine ⟨fun hc => ?_, simplefsMkdir_of_reject (Or.inl hname)⟩
    obtain ⟨h1, h2⟩ := hc.1
    simp only [MAX_FILENAME] at hname
    omega
  have hok : NameOk name := by
    simp only [MAX_FILENAME] at hname
    exact ⟨by omega, by omega⟩
  by_cases hl : simplefsLookup io p name = -1
  · have habs := (simplefsLookup_eq_neg_one_iff h.tree hp name).mp hl
    obtain ⟨hnone, hsome⟩ := simplefsMkdir_of_accept sb hname hp.dir hl
    rcases allocateFreeInode_cases io (INODE_USED ||| INODE_DIR) with
      ⟨ha, hall⟩ | ⟨k, hk, hfree, ha⟩
    · left
      refine ⟨fun hc => ?_, hnone io ha⟩
      obtain ⟨k, hk, hfree⟩ := hc.2.2
      rw [hall k hk] at hfree
      cases hfree
    · right
      refine ⟨hok, habs, k, hk, hfree, ?_⟩
      have hspec := makeDir_spec h hsb hk hfree hp
      have hpk : p.toNat ≠ k := by
        intro he
        rw [← he, hp.used] at hfree
        cases hfree
      have hres := hsome k hk ha
      rw [show (inodeAt io.disk p.toNat).block 0 =
          (inodeAt (io.makeDir sb k p).disk p.toNat).block 0 by
        rw [hspec.inode _ hp.lt, if_neg hpk]] at hres
      rcases addDirEntry_cases (io.makeDir sb k p) p.toNat (UInt32.ofNat k) name with
        ⟨hfull, he⟩ | ⟨j, hj, hempty, he⟩
      · left
        refine ⟨fun j hj => ?_, (hres _ _ he).trans (by rw [if_pos (by decide)])⟩
        rw [← hspec.slots _ hp]
        exact hfull j hj
      · right
        refine ⟨j, hj, ?_, (hres _ _ he).trans (by rw [if_neg (by decide)])⟩
        rw [← hspec.slots _ hp]
        exact hempty
  · left
    refine ⟨fun hc => hl ((simplefsLookup_eq_neg_one_iff h.tree hp name).mpr hc.2.1), ?_⟩
    exact simplefsMkdir_of_reject (Or.inr (Or.inr hl))

theorem simplefsMkdir_safe {io : Io} {sb : Superblock} (h : FsInv io.disk)
    (hsb : sb.dataBlockStart = 17) {p : UInt32}
    (hp : IsDirectory io.disk p.toNat ∨ (inodeAt io.disk p.toNat).isDir = false) (name : CStr) :
    SafeRun io (simplefsMkdir io sb p name).2 := by
  rcases hp with hp | hp
  swap
  · rw [simplefsMkdir_of_reject (Or.inr (Or.inl hp))]
    exact SafeRun.refl io
  rcases simplefsMkdir_cases h hsb hp name with ⟨_, he⟩ | ⟨hname, habs, k, hk, hfree, hcase⟩
  · rw [he]
    exact SafeRun.refl io
  have hspec := makeDir_spec h hsb hk hfree hp
  rcases hcase with ⟨_, he⟩ | ⟨j, hj, hempty, he⟩
  · rw [he]
    exact hspec.run
  · rw [he]
    refine hspec.run.trans (SafeRun.step ?_)
    obtain ⟨hk0, _⟩ := h.tree.unnamed_of_free hfree
    refine step_link ((hspec.dirs _).mpr (Or.inl hp)) hj ?_ hname ?_ hk hk0 ?_
      (fun i' j' hc => (hspec.child i' j' k hc).2 rfl) (fun _ => ⟨?_, ?_⟩)
    · rw [hspec.slots _ hp]
      exact hempty
    · intro j' hj' hpr
      rw [hspec.slots _ hp] at hpr ⊢
      exact habs j' hj' hpr
    · rw [hspec.inode k hk, if_pos rfl, Inode.isUsed_setBlock]
      rfl
    · exact (hspec.dirs k).mpr (Or.inr rfl)
    · rw [hspec.self, getEntry_newTable_one]
      rfl

/-! ### `write` -/

/-- The block step of the write loop: the device and inode after block `i` has been allocated
if it was not. -/
def ensureBlock (io : Io) (sb : Superblock) (k : UInt32) (ino : Inode) (i : ℕ) : Io × Inode :=
  if ino.block i = 0 then
    (writeInode io k (ino.setBlock i (findFreeDataBlock io sb)),
      ino.setBlock i (findFreeDataBlock io sb))
  else (io, ino)

/-- The number of bytes copied into one block when `left` bytes remain. -/
def chunkLen (left : UInt32) : UInt32 := if 512 < left then 512 else left

/-- The contents written to block `i` of a file. -/
def chunkSector (buf : ℕ → UInt8) (i len : ℕ) : Sector :=
  Buf.zero.blit 0 len fun q => buf (i * 512 + q)

theorem writeLoop_succ (sb : Superblock) (k : UInt32) (buf : ℕ → UInt8) (n i : ℕ) (io : Io)
    (ino : Inode) (left : UInt32) :
    writeLoop sb k buf (n + 1) i io ino left =
      writeLoop sb k buf n (i + 1)
        ((ensureBlock io sb k ino i).1.write ⟨.data, ((ensureBlock io sb k ino i).2.block i).toNat,
          chunkSector buf i (chunkLen left).toNat⟩)
        (ensureBlock io sb k ino i).2 (left - chunkLen left) := rfl

theorem toNat_chunkLen (left : UInt32) : (chunkLen left).toNat = min 512 left.toNat := by
  unfold chunkLen
  split_ifs with h
  · have h' : 512 < left.toNat := h
    show 512 = min 512 left.toNat
    omega
  · have h' : ¬ 512 < left.toNat := h
    omega

theorem toNat_sub_chunkLen (left : UInt32) :
    (left - chunkLen left).toNat = left.toNat - 512 := by
  have h : chunkLen left ≤ left := by
    show (chunkLen left).toNat ≤ left.toNat
    rw [toNat_chunkLen]
    omega
  rw [UInt32.toNat_sub_of_le _ _ h, toNat_chunkLen]
  omega

/-- What a step of the write loop leaves: block `i` of file `k` is allocated, all else is as
before. -/
structure EnsureSpec (io : Io) (k : UInt32) (ino : Inode) (i : ℕ) (r : Io × Inode) : Prop where
  run : SafeRun io r.1
  self : inodeAt r.1.disk k.toNat = r.2
  flags : r.2.flags = ino.flags
  size : r.2.size = ino.size
  others : ∀ m, m ≠ k.toNat → inodeAt r.1.disk m = inodeAt io.disk m
  block : r.2.block i ≠ 0
  old : ∀ m, ino.block m ≠ 0 → r.2.block m = ino.block m
  kept : ∀ m, m ≠ i → r.2.block m = ino.block m
  data : ∀ b, 17 ≤ b → r.1.disk b = io.disk b

theorem ensureBlock_spec {io : Io} {sb : Superblock} (hsb : sb.dataBlockStart = 17) {k : UInt32}
    {ino : Inode} {i : ℕ} (hk : k.toNat < 64) (hself : inodeAt io.disk k.toNat = ino)
    (hused : ino.isUsed = true) (hfile : ino.isDir = false) (hi : i < 30) :
    EnsureSpec io k ino i (ensureBlock io sb k ino i) := by
  subst hself
  unfold ensureBlock
  by_cases h0 : (inodeAt io.disk k.toNat).block i = 0
  · rw [if_pos h0]
    have hb : IsFreeBlock io.disk (findFreeDataBlock io sb) :=
      ⟨(findFreeDataBlock_range io hsb).1, (findFreeDataBlock_range io hsb).2,
        not_owned_findFreeDataBlock io sb⟩
    refine ⟨?_, ?_, rfl, rfl, ?_, ?_, ?_, ?_, ?_⟩
    · exact SafeRun.step (Step.takeBlock k.toNat i _ hk hi hused hfile h0 hb)
    · rw [writeInode_disk, inodeAt_putInode_same]
    · intro m hm
      rw [writeInode_disk, inodeAt_putInode_ne _ _ hm]
    · rw [Inode.block_setBlock _ _ _ hi, if_pos rfl]
      intro hz
      have := hb.ge
      rw [hz] at this
      simp at this
    · intro m hm
      rw [Inode.block_setBlock _ _ _ hi, if_neg]
      rintro rfl
      exact hm h0
    · intro m hm
      rw [Inode.block_setBlock _ _ _ hi, if_neg hm]
    · intro b hb17
      rw [writeInode_disk, putInode_data _ _ hk (Or.inr hb17)]
  · rw [if_neg h0]
    exact ⟨SafeRun.refl io, rfl, rfl, rfl, fun _ _ => rfl, h0, fun _ _ => rfl, fun _ _ => rfl,
      fun _ _ => rfl⟩

/-- What the write loop leaves after writing blocks `i … i + n - 1` of file `k`. -/
structure WriteSpec (io : Io) (k : UInt32) (ino : Inode) (buf : ℕ → UInt8) (i n left : ℕ)
    (r : Io × Inode) : Prop where
  run : SafeRun io r.1
  self : inodeAt r.1.disk k.toNat = r.2
  flags : r.2.flags = ino.flags
  others : ∀ m < 64, m ≠ k.toNat → inodeAt r.1.disk m = inodeAt io.disk m
  old : ∀ m, ino.block m ≠ 0 → r.2.block m = ino.block m
  kept : ∀ m, m < i ∨ i + n ≤ m → r.2.block m = ino.block m
  filled : ∀ m, i ≤ m → m < i + n → r.2.block m ≠ 0 ∧
    r.1.disk (r.2.block m).toNat = chunkSector buf m (min 512 (left - 512 * (m - i)))
  frame : ∀ b, 17 ≤ b → (∀ m, i ≤ m → m < i + n → (r.2.block m).toNat ≠ b) →
    r.1.disk b = io.disk b

theorem writeLoop_spec {sb : Superblock} (hsb : sb.dataBlockStart = 17) {k : UInt32}
    (hk : k.toNat < 64) (buf : ℕ → UInt8) (n : ℕ) : ∀ (i : ℕ) (io : Io) (ino : Inode)
    (left : UInt32), FsInv io.disk → inodeAt io.disk k.toNat = ino → ino.isUsed = true →
    ino.isDir = false → i + n ≤ 30 →
    WriteSpec io k ino buf i n left.toNat (writeLoop sb k buf n i io ino left) := by
  induction n with
  | zero =>
      intro i io ino left _ hself _ _ _
      exact ⟨SafeRun.refl io, hself, rfl, fun _ _ _ => rfl, fun _ _ => rfl, fun _ _ => rfl,
        fun m h1 h2 => by omega, fun _ _ _ => rfl⟩
  | succ n ih =>
      intro i io ino left h hself hused hfile hin
      have he := ensureBlock_spec hsb hk hself hused hfile (i := i) (by omega)
      rw [writeLoop_succ]
      generalize ensureBlock io sb k ino i = e at he ⊢
      obtain ⟨io₁, ino₁⟩ := e
      have hrun := he.run
      have hself₁ := he.self
      have hflags₁ := he.flags
      have hblock₁ := he.block
      simp only at hrun hself₁ hflags₁ hblock₁ ⊢
      have hinv₁ := hrun.inv h
      have hused₁ : ino₁.isUsed = true := by
        unfold Inode.isUsed at hused ⊢
        rw [hflags₁]; exact hused
      have hfile₁ : ino₁.isDir = false := by
        unfold Inode.isDir at hfile ⊢
        rw [hflags₁]; exact hfile
      -- the data write goes to the file's own block
      have hstep : Step io₁.disk ⟨.data, (ino₁.block i).toNat,
          chunkSector buf i (chunkLen left).toNat⟩ := by
        have := Step.writeData (d := io₁.disk) k.toNat i (chunkSector buf i (chunkLen left).toNat)
          hk (by omega) (by rw [hself₁]; exact hused₁) (by rw [hself₁]; exact hfile₁)
          (by rw [hself₁]; exact hblock₁)
        rwa [hself₁] at this
      have hge : 17 ≤ (ino₁.block i).toNat := hstep.lba_ge hinv₁.blocks (Or.inr rfl)
      generalize hio₂ : io₁.write ⟨.data, (ino₁.block i).toNat,
        chunkSector buf i (chunkLen left).toNat⟩ = io₂
      have hdisk₂ : io₂.disk = Function.update io₁.disk (ino₁.block i).toNat
          (chunkSector buf i (chunkLen left).toNat) := by rw [← hio₂]; rfl
      have hrun₂ : SafeRun io io₂ := hrun.trans (hio₂ ▸ SafeRun.step hstep)
      have hself₂ : inodeAt io₂.disk k.toNat = ino₁ := by
        rw [hdisk₂, inodeAt_update _ _ hk hge, hself₁]
      have hr := ih (i + 1) io₂ ino₁ (left - chunkLen left) (hrun₂.inv h) hself₂ hused₁ hfile₁
        (by omega)
      rw [toNat_sub_chunkLen] at hr
      generalize writeLoop sb k buf n (i + 1) io₂ ino₁ (left - chunkLen left) = r at hr ⊢
      have hri : r.2.block i = ino₁.block i := hr.old i hblock₁
      refine ⟨hrun₂.trans hr.run, hr.self, hr.flags.trans hflags₁, ?_, ?_, ?_, ?_, ?_⟩
      · intro m hm hmk
        rw [hr.others m hm hmk, hdisk₂, inodeAt_update _ _ hm hge, he.others m hmk]
      · intro m hm
        have h1 := he.old m hm
        simp only at h1
        rw [hr.old m (by rw [h1]; exact hm), h1]
      · intro m hm
        rw [hr.kept m (by omega), he.kept m (by omega)]
      · intro m h1 h2
        rcases Nat.eq_or_lt_of_le h1 with rfl | h3
        · refine ⟨by rw [hri]; exact hblock₁, ?_⟩
          -- no later iteration writes to block `i` again
          rw [hr.frame _ (by rw [hri]; exact hge), hri, hdisk₂, Function.update_self,
            toNat_chunkLen, Nat.sub_self, Nat.mul_zero, Nat.sub_zero]
          intro m hm1 hm2 heq
          have hinv := ((hrun₂.trans hr.run).inv h).blocks
          have hu : (inodeAt r.1.disk k.toNat).isUsed = true := by
            rw [hr.self]
            unfold Inode.isUsed at hused₁ ⊢
            rw [hr.flags]; exact hused₁
          have hne : (inodeAt r.1.disk k.toNat).block i ≠ 0 := by
            rw [hr.self, hri]; exact hblock₁
          have := (hinv.unique k.toNat hk hu i (by omega) hne k.toNat hk hu m (by omega)
            (by rw [hr.self]; exact UInt32.toNat.inj heq)).2
          omega
        · obtain ⟨h4, h5⟩ := hr.filled m (by omega) (by omega)
          refine ⟨h4, ?_⟩
          rw [h5, show left.toNat - 512 - 512 * (m - (i + 1)) = left.toNat - 512 * (m - i) by omega]
      · intro b hb17 hb
        rw [hr.frame b hb17 (fun m h1 h2 => hb m (by omega) (by omega)), hdisk₂,
          Function.update_of_ne, he.data b hb17]
        have := hb i (by omega) (by omega)
        rw [hri] at this
        exact fun he' => this he'.symm

theorem simplefsWrite_eq (io : Io) (sb : Superblock) (p : UInt32) (name : CStr)
    (buf : ℕ → UInt8) (size : UInt32) : simplefsWrite io sb p name buf size =
    if simplefsLookup io p name = -1 then (-1, io)
    else if 30 < ((size + 511) / 512).toNat then (-1, io)
    else
      let k := cUInt (simplefsLookup io p name)
      let r := writeLoop sb k buf ((size + 511) / 512).toNat 0 io (inodeAt io.disk k.toNat) size
      (0, writeInode r.1 k { r.2 with size := size }) := rfl

/-- The last write of `simplefs_write` sets the size. -/
theorem safeRun_setSize {io : Io} {k : UInt32} {ino : Inode} (hk : k.toNat < 64)
    (hself : inodeAt io.disk k.toNat = ino) (hused : ino.isUsed = true)
    (hfile : ino.isDir = false) (size : UInt32) :
    SafeRun io (writeInode io k { ino with size := size }) := by
  subst hself
  exact SafeRun.step (Step.setSize k.toNat size hk hused hfile)

/-- The inode a lookup found is a regular file in use. -/
structure IsFile (d : Disk) (k : ℕ) : Prop where
  lt : k < 64
  used : (inodeAt d k).isUsed = true
  file : (inodeAt d k).isDir = false

theorem IsFile.grows {d d' : Disk} (h : Grows d d') {k : ℕ} (hk : IsFile d k) : IsFile d' k := by
  obtain ⟨h1, h2⟩ := h.kind k hk.lt hk.used
  exact ⟨hk.lt, h1, h2.trans hk.file⟩

theorem simplefsWrite_safe {io : Io} {sb : Superblock} (h : FsInv io.disk)
    (hsb : sb.dataBlockStart = 17) (p : UInt32) (name : CStr) (buf : ℕ → UInt8) (size : UInt32)
    (hfile : simplefsLookup io p name = -1 ∨
      IsFile io.disk (cUInt (simplefsLookup io p name)).toNat) :
    SafeRun io (simplefsWrite io sb p name buf size).2 := by
  rw [simplefsWrite_eq]
  split_ifs with h1 h2
  · exact SafeRun.refl io
  · exact SafeRun.refl io
  · have hf := hfile.resolve_left h1
    have hw := writeLoop_spec hsb hf.lt buf ((size + 511) / 512).toNat 0 io _ size h rfl hf.used
      hf.file (by omega)
    refine hw.run.trans (safeRun_setSize hf.lt hw.self ?_ ?_ size)
    · unfold Inode.isUsed
      rw [hw.flags]
      exact hf.used
    · unfold Inode.isDir
      rw [hw.flags]
      exact hf.file

/-! ### Formatting -/

theorem getInode_zero (i : ℕ) : getInode Buf.zero i = Inode.fresh 0 := by
  have hw : ∀ off, (Buf.zero : Sector).word off = 0 := fun off =>
    Buf.word_eq_of_get _ _ _ fun k _ => by
      rw [Buf.get_zero]
      simp [leByte]
  unfold getInode Inode.fresh
  simp only [hw]

theorem clearSectors_disk (s : Sector) (p : Purpose) : ∀ (l : List ℕ) (io : Io) (b : ℕ),
    (l.foldl (fun io sec => ataWriteSector io p sec s) io).disk b =
      if b ∈ l then s else io.disk b
  | [], io, b => by simp
  | c :: l, io, b => by
      rw [List.foldl_cons, clearSectors_disk s p l]
      by_cases hl : b ∈ l
      · simp [hl]
      · by_cases hc : b = c
        · simp [hc, ataWriteSector]
        · simp [hl, hc, ataWriteSector]

theorem clearSectors_log (s : Sector) (p : Purpose) : ∀ (l : List ℕ) (io : Io),
    (l.foldl (fun io sec => ataWriteSector io p sec s) io).log =
      io.log ++ l.map fun sec => ⟨p, sec, s⟩
  | [], io => by simp
  | c :: l, io => by
      rw [List.foldl_cons, clearSectors_log s p l]
      simp [ataWriteSector]

/-- The disk a format leaves. -/
theorem formatDisk_disk (io : Io) (b : ℕ) : (formatDisk io).disk b =
    if b = 17 then newTable 0 0
    else if b = 1 then setInode Buf.zero 0 rootInode
    else if b < 17 ∧ 1 ≤ b then Buf.zero
    else if b = 0 then Buf.zero.blit 0 16 formatSuperblock.byteAt
    else io.disk b := by
  have hmem : b ∈ List.range' INODE_START_SECTOR INODE_SECTORS ↔ 1 ≤ b ∧ b < 17 := by
    simp only [INODE_START_SECTOR, INODE_SECTORS, INODE_COUNT, INODES_PER_SECTOR, List.mem_range'_1]
  have h17 : formatSuperblock.dataBlockStart.toNat = 17 := rfl
  have hc := clearSectors_disk Buf.zero .inodeTable (List.range' INODE_START_SECTOR INODE_SECTORS)
    (ataWriteSector io .superblock SUPERBLOCK_SECTOR
      (Buf.zero.blit 0 16 formatSuperblock.byteAt)) b
  unfold formatDisk
  rw [ataWriteSector_eq, ataWriteSector_eq _ .inodeTable]
  simp only [Io.write, SectorWrite.apply, h17]
  by_cases hb17 : b = 17
  · simp [hb17]
  by_cases hb1 : b = 1
  · simp [hb1, INODE_START_SECTOR]
  have hb1' : b ≠ INODE_START_SECTOR := hb1
  rw [if_neg hb17, if_neg hb1, Function.update_of_ne hb17, Function.update_of_ne hb1', hc]
  by_cases hin : 1 ≤ b ∧ b < 17
  · rw [if_pos (hmem.mpr hin), if_pos ⟨hin.2, hin.1⟩]
  · rw [if_neg (fun h => hin (hmem.mp h)), if_neg (fun h => hin ⟨h.2, h.1⟩)]
    by_cases hb0 : b = 0
    · simp [hb0, ataWriteSector, SUPERBLOCK_SECTOR]
    · rw [if_neg hb0]
      exact Function.update_of_ne hb0 _ _

/-- After a format inode `0` is the root directory and no other inode is in use. -/
theorem inodeAt_formatDisk (io : Io) {i : ℕ} (hi : i < 64) :
    inodeAt (formatDisk io).disk i = if i = 0 then rootInode else Inode.fresh 0 := by
  unfold inodeAt
  rw [formatDisk_disk, if_neg (by unfold inodeSector; omega)]
  by_cases hs : inodeSector i = 1
  · rw [if_pos hs]
    unfold inodeSector at hs
    have hm : i % 4 = i := by omega
    rw [hm]
    split_ifs with h0
    · rw [h0, getInode_setInode_same _ (by omega)]
    · rw [getInode_setInode_ne _ h0, getInode_zero]
  · unfold inodeSector at hs ⊢
    have h0 : i ≠ 0 := by omega
    rw [if_neg hs, if_pos (by omega), if_neg h0, getInode_zero]

theorem isUsed_formatDisk (io : Io) {i : ℕ} (hi : i < 64)
    (hu : (inodeAt (formatDisk io).disk i).isUsed = true) : i = 0 := by
  by_contra h0
  rw [inodeAt_formatDisk io hi, if_neg h0] at hu
  cases hu

theorem block_formatDisk (io : Io) (j : ℕ) :
    (inodeAt (formatDisk io).disk 0).block j = if j = 0 then 17 else 0 := by
  rw [inodeAt_formatDisk io (by omega), if_pos rfl]
  unfold rootInode
  rw [Inode.block_setBlock _ _ _ (by omega)]
  split_ifs with hj
  · rfl
  · simp

theorem slot_formatDisk (io : Io) (j : ℕ) :
    slot (formatDisk io).disk 0 j = getEntry (newTable 0 0) j := by
  unfold slot dirBlock entryAt
  rw [block_formatDisk, if_pos rfl, formatDisk_disk]
  rfl

/-- **A completed format establishes the invariant.** -/
theorem formatDisk_inv (io : Io) : FsInv (formatDisk io).disk := by
  have hroot : IsDirectory (formatDisk io).disk 0 := by
    refine ⟨by omega, ?_, ?_, ?_⟩
    · rw [inodeAt_formatDisk io (by omega), if_pos rfl]; rfl
    · rw [inodeAt_formatDisk io (by omega), if_pos rfl]; rfl
    · rw [block_formatDisk, if_pos rfl]; decide
  have honly : ∀ i, IsDirectory (formatDisk io).disk i → i = 0 := fun i hi =>
    isUsed_formatDisk io hi.lt hi.used
  have hzero : (slot (formatDisk io).disk 0 0) = mkEntry Buf.zero 0 dot := by
    rw [slot_formatDisk, getEntry_newTable_zero]
  have hone : (slot (formatDisk io).disk 0 1) = mkEntry Buf.zero 0 dotdot := by
    rw [slot_formatDisk, getEntry_newTable_one]
  have hlt : ∀ j, (slot (formatDisk io).disk 0 j).isPresent = true → j < 2 := by
    intro j hp
    by_contra hj
    rw [slot_formatDisk, isPresent_newTable _ _ (by omega)] at hp
    cases hp
  have hnochild : ∀ i j k, ¬ Child (formatDisk io).disk i j k := by
    intro i j k hc
    obtain rfl := honly i hc.dir
    have := hlt j hc.present
    have := hc.two_le
    omega
  refine ⟨?_, ⟨?_, ?_⟩, ⟨hroot, by rw [hone]; rfl, ?_, ?_, ?_, ?_, ?_, ?_⟩⟩
  · rw [formatDisk_disk]
    exact getSuperblock_blit formatSuperblock
  · intro i hi hu j hj hne
    obtain rfl := isUsed_formatDisk io hi hu
    rw [block_formatDisk] at hne ⊢
    split_ifs at hne ⊢
    · decide
    · exact absurd rfl hne
  · intro i hi hu j hj hne i' hi' hu' j' hj' he
    obtain rfl := isUsed_formatDisk io hi hu
    obtain rfl := isUsed_formatDisk io hi' hu'
    refine ⟨rfl, ?_⟩
    rw [block_formatDisk] at hne he
    rw [block_formatDisk] at he
    split_ifs at hne he with h1 h2
    · omega
    · exact absurd he (by decide)
    · exact absurd rfl hne
    · exact absurd rfl hne
  · intro i hi
    obtain rfl := honly i hi
    rw [hzero]
    exact ⟨hasName_mkEntry _ _ (by decide), rfl⟩
  · intro i hi
    obtain rfl := honly i hi
    rw [hone]
    exact ⟨hasName_mkEntry _ _ (by decide), hroot⟩
  · intro i hi j _ hp
    obtain rfl := honly i hi
    have := hlt j hp
    interval_cases j
    · rw [hzero]
      exact ⟨⟨dot, hasName_mkEntry _ _ (by decide)⟩, by decide, hroot.used⟩
    · rw [hone]
      exact ⟨⟨dotdot, hasName_mkEntry _ _ (by decide)⟩, by decide, hroot.used⟩
  · intro i hi j _ j' _ hp hp' s hs hs'
    obtain rfl := honly i hi
    have h1 := hlt j hp
    have h2 := hlt j' hp'
    have hd : (slot (formatDisk io).disk 0 0).HasName dot := by
      rw [hzero]; exact hasName_mkEntry _ _ (by decide)
    have hdd : (slot (formatDisk io).disk 0 1).HasName dotdot := by
      rw [hone]; exact hasName_mkEntry _ _ (by decide)
    interval_cases j <;> interval_cases j'
    · rfl
    · exact absurd ((hd.unique hs).trans (hs'.unique hdd)) dot_ne_dotdot
    · exact absurd ((hd.unique hs').trans (hs.unique hdd)) dot_ne_dotdot
    · rfl
  · intro i j k hc
    exact absurd hc (hnochild i j k)
  · intro i j i' j' k hc
    exact absurd hc (hnochild i j k)

/-- The tables and data written by a format lie in the data area. -/
theorem formatDisk_log (io : Io) : ∃ ws, (formatDisk io).log = io.log ++ ws ∧
    ∀ w ∈ ws, w.purpose = .dirTable ∨ w.purpose = .data → 17 ≤ w.lba := by
  unfold formatDisk
  simp only [ataWriteSector]
  have hc := clearSectors_log Buf.zero .inodeTable (List.range' INODE_START_SECTOR INODE_SECTORS)
    (ataWriteSector io .superblock SUPERBLOCK_SECTOR (Buf.zero.blit 0 16 formatSuperblock.byteAt))
  simp only [ataWriteSector] at hc
  rw [hc]
  simp only [List.append_assoc]
  refine ⟨_, rfl, ?_⟩
  intro w hw hp
  simp only [List.mem_append, List.mem_cons, List.not_mem_nil, or_false, List.mem_map] at hw
  rcases hw with rfl | ⟨sec, _, rfl⟩ | rfl | rfl
  · simp at hp
  · simp at hp
  · simp at hp
  · show 17 ≤ formatSuperblock.dataBlockStart.toNat
    decide

end NosmeriOs.SimpleFs
