import NosmeriOs.SimpleFsView

/-! # The disk invariant and the sector writes that keep it

* `BlockInv`: no block is in two slots of used inodes, and every block in a slot lies in the
  data area.
* `TreeInv`: every directory whose table is in place (`IsDirectory`) starts with `.` and `..`,
  its names are terminated and distinct, its entries point to used inodes, and no inode has
  two names.
* `Step d w`: the writes the file system ever issues.  Publication happens in an order that
  keeps both invariants between any two writes: an inode is taken before its table is
  written, the table is written before the inode points to it, and the entry that names the
  inode comes last.
* `Step.inv` and `Step.grows`: each of these writes keeps the invariant, and never removes a
  directory, an entry or an inode. -/

namespace NosmeriOs.SimpleFs

open Bytes

/-! ### Names -/

/-- The entry's name is `s`, terminator included in its 28 bytes. -/
def DirEntry.HasName (e : DirEntry) (s : CStr) : Prop :=
  s.strlen < 28 ∧ CStr.Holds e.filename.get s

theorem DirEntry.HasName.unique {e : DirEntry} {s t : CStr} (hs : e.HasName s)
    (ht : e.HasName t) : s = t := hs.2.unique ht.2

theorem DirEntry.HasName.isPresent_iff {e : DirEntry} {s : CStr} (h : e.HasName s) :
    e.isPresent = true ↔ s.strlen ≠ 0 := by
  have h0 := h.2 0 (Nat.zero_le _)
  unfold DirEntry.isPresent
  rw [h0, bne_iff_ne]
  constructor
  · intro hne hl
    apply hne
    rw [← hl]
    exact s.byteAt_strlen
  · intro hl
    exact s.byteAt_ne_zero (by omega)

theorem DirEntry.HasName.name_eq {e : DirEntry} {s : CStr} (h : e.HasName s) : e.name = s :=
  CStr.ofMem_of_holds h.2 h.1

theorem hasName_mkEntry (old : Buf MAX_FILENAME) (k : UInt32) {s : CStr} (h : s.strlen < 28) :
    (mkEntry old k s).HasName s := by
  refine ⟨h, ?_⟩
  intro i hi
  have := Buf.get_blit_in old 0 (s.strlen + 1) s.byteAt (k := i) (by omega)
    (by simp only [MAX_FILENAME]; omega)
  rwa [Nat.zero_add] at this

/-! ### Directories -/

/-- Inode `i` is a directory in use whose table is in place. -/
structure IsDirectory (d : Disk) (i : ℕ) : Prop where
  lt : i < 64
  used : (inodeAt d i).isUsed = true
  dir : (inodeAt d i).isDir = true
  table : (inodeAt d i).block 0 ≠ 0

/-- The sector of a directory's table. -/
def dirBlock (d : Disk) (i : ℕ) : ℕ := ((inodeAt d i).block 0).toNat

/-- Entry `j` of directory `i`. -/
def slot (d : Disk) (i j : ℕ) : DirEntry := entryAt d (dirBlock d i) j

/-- Entry `j` of directory `i` names inode `k` (`.` and `..` apart). -/
structure Child (d : Disk) (i j k : ℕ) : Prop where
  dir : IsDirectory d i
  two_le : 2 ≤ j
  lt : j < 16
  present : (slot d i j).isPresent = true
  idx : (slot d i j).inodeIdx.toNat = k

/-! ### The invariants -/

/-- Every block belongs to at most one slot, and to the data area. -/
structure BlockInv (d : Disk) : Prop where
  range : ∀ i < 64, (inodeAt d i).isUsed = true → ∀ j < 30, (inodeAt d i).block j ≠ 0 →
    17 ≤ ((inodeAt d i).block j).toNat ∧ ((inodeAt d i).block j).toNat < 32768
  unique : ∀ i < 64, (inodeAt d i).isUsed = true → ∀ j < 30, (inodeAt d i).block j ≠ 0 →
    ∀ i' < 64, (inodeAt d i').isUsed = true → ∀ j' < 30,
      (inodeAt d i').block j' = (inodeAt d i).block j → i' = i ∧ j' = j

structure TreeInv (d : Disk) : Prop where
  root : IsDirectory d 0
  rootUp : (slot d 0 1).inodeIdx.toNat = 0
  dot : ∀ i, IsDirectory d i → (slot d i 0).HasName dot ∧ (slot d i 0).inodeIdx.toNat = i
  dotdot : ∀ i, IsDirectory d i →
    (slot d i 1).HasName dotdot ∧ IsDirectory d (slot d i 1).inodeIdx.toNat
  entry : ∀ i, IsDirectory d i → ∀ j < 16, (slot d i j).isPresent = true →
    (∃ s, (slot d i j).HasName s) ∧ (slot d i j).inodeIdx.toNat < 64 ∧
      (inodeAt d (slot d i j).inodeIdx.toNat).isUsed = true
  names : ∀ i, IsDirectory d i → ∀ j < 16, ∀ j' < 16, (slot d i j).isPresent = true →
    (slot d i j').isPresent = true → ∀ s, (slot d i j).HasName s → (slot d i j').HasName s → j = j'
  child : ∀ i j k, Child d i j k → k ≠ 0 ∧ ((inodeAt d k).isDir = true →
    IsDirectory d k ∧ (slot d k 1).inodeIdx.toNat = i)
  childUnique : ∀ i j i' j' k, Child d i j k → Child d i' j' k → i = i' ∧ j = j'

/-- The disk invariant: the superblock of a format, block ownership and the tree. -/
structure FsInv (d : Disk) : Prop where
  superblock : getSuperblock (d SUPERBLOCK_SECTOR) = formatSuperblock
  blocks : BlockInv d
  tree : TreeInv d

theorem BlockInv.dirBlock_range {d : Disk} (h : BlockInv d) {i : ℕ} (hi : IsDirectory d i) :
    17 ≤ dirBlock d i ∧ dirBlock d i < 32768 :=
  h.range i hi.lt hi.used 0 (by omega) hi.table

theorem BlockInv.dirBlock_inj {d : Disk} (h : BlockInv d) {i i' : ℕ} (hi : IsDirectory d i)
    (hi' : IsDirectory d i') (he : dirBlock d i' = dirBlock d i) : i' = i :=
  (h.unique i hi.lt hi.used 0 (by omega) hi.table i' hi'.lt hi'.used 0 (by omega)
    (UInt32.toNat.inj he)).1

/-! ### The writes -/

/-- The disk after a write. -/
def SectorWrite.apply (w : SectorWrite) (d : Disk) : Disk := Function.update d w.lba w.sector

/-- The write that stores inode `k`. -/
def inodeWrite (d : Disk) (k : ℕ) (n : Inode) : SectorWrite :=
  ⟨.inodeTable, inodeSector k, setInode (d (inodeSector k)) (k % 4) n⟩

/-- A block that may be handed out: in the data area and in no slot of a used inode. -/
structure IsFreeBlock (d : Disk) (b : UInt32) : Prop where
  ge : 17 ≤ b.toNat
  lt : b.toNat < 32768
  free : ¬ Owned d b

/-- The sector writes of the file system, with what holds when each is issued. -/
inductive Step (d : Disk) : SectorWrite → Prop
  /-- `allocate_free_inode`: take an inode that is not in use. -/
  | takeInode (k : ℕ) (flags : UInt32) (hk : k < 64) (hfree : (inodeAt d k).isUsed = false)
      (hflags : (Inode.fresh flags).isUsed = true) : Step d (inodeWrite d k (Inode.fresh flags))
  /-- `mkdir`: write the new table to a block nobody owns. -/
  | writeTable (b : UInt32) (s : Sector) (hb : IsFreeBlock d b) : Step d ⟨.dirTable, b.toNat, s⟩
  /-- `mkdir`: let the new directory's inode point to its table. -/
  | setTable (k : ℕ) (b : UInt32) (p : UInt32) (hk : k < 64)
      (hused : (inodeAt d k).isUsed = true) (hdir : (inodeAt d k).isDir = true)
      (hnone : (inodeAt d k).block 0 = 0) (hb : IsFreeBlock d b)
      (htable : d b.toNat = newTable (UInt32.ofNat k) p) (hp : IsDirectory d p.toNat) :
      Step d (inodeWrite d k ((inodeAt d k).setBlock 0 b))
  /-- `add_dir_entry`: name inode `k` in the empty slot `j` of directory `i`. -/
  | link (i j : ℕ) (k : UInt32) (s : CStr) (hi : IsDirectory d i) (hj : j < 16)
      (hempty : (slot d i j).isPresent = false) (hlen : s.strlen < 28) (hlen0 : s.strlen ≠ 0)
      (hnew : ∀ j' < 16, (slot d i j').isPresent = true → ¬ (slot d i j').HasName s)
      (hk : k.toNat < 64) (hk0 : k.toNat ≠ 0) (hused : (inodeAt d k.toNat).isUsed = true)
      (hunnamed : ∀ i' j', ¬ Child d i' j' k.toNat)
      (hdir : (inodeAt d k.toNat).isDir = true →
        IsDirectory d k.toNat ∧ (slot d k.toNat 1).inodeIdx.toNat = i) :
      Step d ⟨.dirTable, dirBlock d i,
        setEntry (d (dirBlock d i)) j (mkEntry (slot d i j).filename k s)⟩
  /-- `simplefs_write`: give a file a new block. -/
  | takeBlock (k m : ℕ) (b : UInt32) (hk : k < 64) (hm : m < 30)
      (hused : (inodeAt d k).isUsed = true) (hfile : (inodeAt d k).isDir = false)
      (hnone : (inodeAt d k).block m = 0) (hb : IsFreeBlock d b) :
      Step d (inodeWrite d k ((inodeAt d k).setBlock m b))
  /-- `simplefs_write`: fill a block of a file. -/
  | writeData (k m : ℕ) (s : Sector) (hk : k < 64) (hm : m < 30)
      (hused : (inodeAt d k).isUsed = true) (hfile : (inodeAt d k).isDir = false)
      (hblock : (inodeAt d k).block m ≠ 0) :
      Step d ⟨.data, ((inodeAt d k).block m).toNat, s⟩
  /-- `simplefs_write`: set the size of a file. -/
  | setSize (k : ℕ) (size : UInt32) (hk : k < 64) (hused : (inodeAt d k).isUsed = true)
      (hfile : (inodeAt d k).isDir = false) :
      Step d (inodeWrite d k { inodeAt d k with size := size })

/-! ### Block ownership -/

/-- Storing an inode keeps block ownership when its blocks are those it had, except for at
most one free block in slot `m`. -/
theorem BlockInv.putInode {d : Disk} (h : BlockInv d) {k m : ℕ} {n : Inode}
    (hn : ∀ j < 30, n.block j ≠ 0 →
      ((inodeAt d k).isUsed = true ∧ n.block j = (inodeAt d k).block j) ∨
      (j = m ∧ IsFreeBlock d (n.block j))) (hk : k < 64) :
    BlockInv (putInode d k n) := by
  -- a slot of the new inode never holds a block of another used inode
  have hother : ∀ i < 64, i ≠ k → (inodeAt d i).isUsed = true → ∀ j < 30, ∀ j' < 30,
      n.block j' ≠ 0 → (inodeAt d i).block j ≠ n.block j' := by
    intro i hi hik hu j hj j' hj' hne he
    rcases hn j' hj' hne with ⟨hku, heq⟩ | ⟨_, hb⟩
    · have := (h.unique k hk hku j' hj' (by rwa [heq] at hne) i hi hu j hj (by rw [he, heq])).1
      exact hik this
    · exact hb.free ⟨i, hi, hu, j, hj, he⟩
  constructor
  · intro i hi hu j hj hne
    rw [inodeAt_putInode] at hu hne ⊢
    split_ifs at hu hne ⊢ with hik
    · rcases hn j hj hne with ⟨hku, heq⟩ | ⟨_, hb⟩
      · rw [heq] at hne ⊢
        exact h.range k hk hku j hj hne
      · exact ⟨hb.ge, hb.lt⟩
    · exact h.range i hi hu j hj hne
  · intro i hi hu j hj hne i' hi' hu' j' hj' he
    rw [inodeAt_putInode] at hu hne he hu'
    rw [inodeAt_putInode] at he
    split_ifs at hu hne he hu' with hik hik' hik'
    · refine ⟨hik'.trans hik.symm, ?_⟩
      have hne' : n.block j' ≠ 0 := by rwa [he]
      rcases hn j hj hne with ⟨hku, heq⟩ | ⟨hjm, hb⟩
      · rcases hn j' hj' hne' with ⟨_, heq'⟩ | ⟨_, hb'⟩
        · exact (h.unique k hk hku j hj (by rwa [heq] at hne) k hk hku j' hj'
            (by rw [← heq', he, heq])).2
        · exact absurd ⟨k, hk, hku, j, hj, by rw [← heq, ← he]⟩ hb'.free
      · rcases hn j' hj' hne' with ⟨hku, heq'⟩ | ⟨hjm', _⟩
        · exact absurd ⟨k, hk, hku, j', hj', by rw [← heq', he]⟩ hb.free
        · exact hjm'.trans hjm.symm
    · exact absurd he (hother i' hi' hik' hu' j' hj' j hj hne)
    · exact absurd he.symm (hother i hi hik hu j hj j' hj' (by rwa [he]))
    · exact h.unique i hi hu j hj hne i' hi' hu' j' hj' he

theorem BlockInv.update {d : Disk} (h : BlockInv d) {b : ℕ} (hb : 17 ≤ b) (s : Sector) :
    BlockInv (Function.update d b s) := by
  constructor
  · intro i hi
    rw [inodeAt_update d s hi hb]
    exact h.range i hi
  · intro i hi hu j hj hne i' hi'
    rw [inodeAt_update d s hi hb] at hu hne ⊢
    rw [inodeAt_update d s hi' hb]
    exact h.unique i hi hu j hj hne i' hi'

/-- Every write issued for a table or for data lies in the data area. -/
theorem Step.lba_ge {d : Disk} (h : BlockInv d) {w : SectorWrite} (hw : Step d w)
    (hp : w.purpose = .dirTable ∨ w.purpose = .data) : 17 ≤ w.lba := by
  cases hw with
  | writeTable b s hb => exact hb.ge
  | link i j k s hi => exact (h.dirBlock_range hi).1
  | writeData k m s hk hm hused _ hblock => exact (h.range k hk hused m hm hblock).1
  | takeInode => simp [inodeWrite] at hp
  | setTable => simp [inodeWrite] at hp
  | takeBlock => simp [inodeWrite] at hp
  | setSize => simp [inodeWrite] at hp

theorem Step.blockInv {d : Disk} (h : BlockInv d) {w : SectorWrite} (hw : Step d w) :
    BlockInv (w.apply d) := by
  cases hw with
  | takeInode k flags hk =>
      refine h.putInode (m := 0) ?_ hk
      intro j _ hne
      simp at hne
  | writeTable b s hb => exact h.update hb.ge s
  | setTable k b p hk hused _ _ hb =>
      refine h.putInode (m := 0) ?_ hk
      intro j _ _
      rw [Inode.block_setBlock _ _ _ (by omega)]
      split_ifs with hj
      · exact Or.inr ⟨hj, hb⟩
      · exact Or.inl ⟨hused, rfl⟩
  | link i j k s hi => exact h.update (h.dirBlock_range hi).1 _
  | takeBlock k m b hk hm hused _ _ hb =>
      refine h.putInode (m := m) ?_ hk
      intro j _ _
      rw [Inode.block_setBlock _ _ _ hm]
      split_ifs with hj
      · exact Or.inr ⟨hj, hb⟩
      · exact Or.inl ⟨hused, rfl⟩
  | writeData k m s hk hm hused _ hblock => exact h.update (h.range k hk hused m hm hblock).1 s
  | setSize k size hk hused =>
      refine h.putInode (m := 0) ?_ hk
      intro j _ _
      exact Or.inl ⟨hused, rfl⟩

/-! ### The tree grows -/

/-- Everything `d` has in its tree is still there in `d'`. -/
structure Grows (d d' : Disk) : Prop where
  dir : ∀ i, IsDirectory d i → IsDirectory d' i
  entry : ∀ i, IsDirectory d i → ∀ j < 16, (slot d i j).isPresent = true → slot d' i j = slot d i j
  kind : ∀ k < 64, (inodeAt d k).isUsed = true →
    (inodeAt d' k).isUsed = true ∧ (inodeAt d' k).isDir = (inodeAt d k).isDir

theorem Grows.refl (d : Disk) : Grows d d :=
  ⟨fun _ h => h, fun _ _ _ _ _ => rfl, fun _ _ h => ⟨h, rfl⟩⟩

theorem Grows.trans {d₁ d₂ d₃ : Disk} (h : Grows d₁ d₂) (h' : Grows d₂ d₃) : Grows d₁ d₃ := by
  refine ⟨fun i hi => h'.dir i (h.dir i hi), ?_, ?_⟩
  · intro i hi j hj hp
    have e := h.entry i hi j hj hp
    rw [h'.entry i (h.dir i hi) j hj (by rw [e]; exact hp), e]
  · intro k hk hu
    obtain ⟨h1, h2⟩ := h.kind k hk hu
    obtain ⟨h3, h4⟩ := h'.kind k hk h1
    exact ⟨h3, h4.trans h2⟩

theorem Child.grows {d d' : Disk} (h : Grows d d') {i j k : ℕ} (hc : Child d i j k) :
    Child d' i j k := by
  have e := h.entry i hc.dir j hc.lt hc.present
  exact ⟨h.dir i hc.dir, hc.two_le, hc.lt, by rw [e]; exact hc.present, by rw [e]; exact hc.idx⟩

/-- `d'` has the same directories with the same tables, and no inode in use changed kind. -/
structure SameTree (d d' : Disk) : Prop where
  dirs : ∀ i, IsDirectory d' i ↔ IsDirectory d i
  slots : ∀ i, IsDirectory d i → ∀ j, slot d' i j = slot d i j
  kinds : ∀ k < 64, (inodeAt d k).isUsed = true →
    (inodeAt d' k).isUsed = true ∧ (inodeAt d' k).isDir = (inodeAt d k).isDir

theorem SameTree.grows {d d' : Disk} (h : SameTree d d') : Grows d d' :=
  ⟨fun i hi => (h.dirs i).mpr hi, fun i hi j _ _ => h.slots i hi j, h.kinds⟩

theorem SameTree.child_iff {d d' : Disk} (h : SameTree d d') {i j k : ℕ} :
    Child d' i j k ↔ Child d i j k := by
  constructor
  · intro hc
    have hi := (h.dirs i).mp hc.dir
    have e := h.slots i hi j
    exact ⟨hi, hc.two_le, hc.lt, by rw [← e]; exact hc.present, by rw [← e]; exact hc.idx⟩
  · exact Child.grows h.grows

/-- The inode named by an entry is in use. -/
theorem TreeInv.child_used {d : Disk} (h : TreeInv d) {i j k : ℕ} (hc : Child d i j k) :
    k < 64 ∧ (inodeAt d k).isUsed = true := by
  obtain ⟨_, h1, h2⟩ := h.entry i hc.dir j hc.lt hc.present
  rw [hc.idx] at h1 h2
  exact ⟨h1, h2⟩

theorem SameTree.treeInv {d d' : Disk} (hs : SameTree d d') (h : TreeInv d) : TreeInv d' := by
  refine ⟨(hs.dirs 0).mpr h.root, ?_, ?_, ?_, ?_, ?_, ?_, ?_⟩
  · rw [hs.slots 0 h.root]
    exact h.rootUp
  · intro i hi
    rw [hs.slots i ((hs.dirs i).mp hi)]
    exact h.dot i ((hs.dirs i).mp hi)
  · intro i hi
    rw [hs.slots i ((hs.dirs i).mp hi), hs.dirs]
    exact h.dotdot i ((hs.dirs i).mp hi)
  · intro i hi j hj hp
    rw [hs.slots i ((hs.dirs i).mp hi)] at hp ⊢
    obtain ⟨h1, h2, h3⟩ := h.entry i ((hs.dirs i).mp hi) j hj hp
    exact ⟨h1, h2, (hs.kinds _ h2 h3).1⟩
  · intro i hi j hj j' hj'
    rw [hs.slots i ((hs.dirs i).mp hi), hs.slots i ((hs.dirs i).mp hi)]
    exact h.names i ((hs.dirs i).mp hi) j hj j' hj'
  · intro i j k hc
    have hc' := hs.child_iff.mp hc
    obtain ⟨h0, h1⟩ := h.child i j k hc'
    refine ⟨h0, fun hd => ?_⟩
    obtain ⟨hk, hu⟩ := h.child_used hc'
    rw [(hs.kinds k hk hu).2] at hd
    obtain ⟨h2, h3⟩ := h1 hd
    exact ⟨(hs.dirs k).mpr h2, by rw [hs.slots k h2]; exact h3⟩
  · intro i j i' j' k hc hc'
    exact h.childUnique i j i' j' k (hs.child_iff.mp hc) (hs.child_iff.mp hc')

/-- Storing an inode that is not a directory with a table, before or after. -/
theorem sameTree_putInode {d : Disk} (hb : BlockInv d) {k : ℕ} {n : Inode} (hk : k < 64)
    (hnot : ¬ IsDirectory d k) (hused : n.isUsed = true) (hn : n.isDir = true → n.block 0 = 0)
    (hkind : (inodeAt d k).isUsed = true → n.isDir = (inodeAt d k).isDir) :
    SameTree d (putInode d k n) := by
  have hdirs : ∀ i, IsDirectory (putInode d k n) i ↔ IsDirectory d i := by
    intro i
    by_cases hik : i = k
    · subst hik
      refine ⟨fun h => ?_, fun h => absurd h hnot⟩
      have hd := h.dir
      have ht := h.table
      rw [inodeAt_putInode_same] at hd ht
      exact absurd (hn hd) ht
    · have e := inodeAt_putInode_ne d n hik
      constructor
      · intro h
        exact ⟨h.lt, e ▸ h.used, e ▸ h.dir, e ▸ h.table⟩
      · intro h
        exact ⟨h.lt, e.symm ▸ h.used, e.symm ▸ h.dir, e.symm ▸ h.table⟩
  refine ⟨hdirs, ?_, ?_⟩
  · intro i hi j
    have hik : i ≠ k := fun h => hnot (h ▸ hi)
    unfold slot dirBlock
    rw [inodeAt_putInode_ne d n hik]
    exact entryAt_putInode d n hk (hb.dirBlock_range hi).1
  · intro i _ hu
    rw [inodeAt_putInode]
    split_ifs with hik
    · exact ⟨hused, by rw [hik] at hu ⊢; exact hkind hu⟩
    · exact ⟨hu, rfl⟩

/-- Writing a data sector that is no directory's table. -/
theorem sameTree_update {d : Disk} {b : ℕ} (hb : 17 ≤ b) (s : Sector)
    (hnot : ∀ i, IsDirectory d i → dirBlock d i ≠ b) : SameTree d (Function.update d b s) := by
  refine ⟨?_, ?_, ?_⟩
  · intro i
    constructor
    · intro h
      have e := inodeAt_update d s h.lt hb
      exact ⟨h.lt, e ▸ h.used, e ▸ h.dir, e ▸ h.table⟩
    · intro h
      have e := inodeAt_update d s h.lt hb
      exact ⟨h.lt, e.symm ▸ h.used, e.symm ▸ h.dir, e.symm ▸ h.table⟩
  · intro i hi j
    unfold slot
    rw [show dirBlock (Function.update d b s) i = dirBlock d i by
      unfold dirBlock; rw [inodeAt_update d s hi.lt hb]]
    exact entryAt_update_ne d s (hnot i hi)
  · intro k hk hu
    rw [inodeAt_update d s hk hb]
    exact ⟨hu, rfl⟩

/-! ### A new directory appears -/

theorem getEntry_newTable_zero (self parent : UInt32) :
    getEntry (newTable self parent) 0 = mkEntry Buf.zero self dot := by
  unfold newTable
  rw [getEntry_setEntry_ne _ (by omega), getEntry_setEntry_same _ (by omega)]

theorem getEntry_newTable_one (self parent : UInt32) :
    getEntry (newTable self parent) 1 = mkEntry Buf.zero parent dotdot := by
  unfold newTable
  rw [getEntry_setEntry_same _ (by omega)]

theorem isPresent_newTable (self parent : UInt32) {j : ℕ} (hj : 2 ≤ j) :
    (getEntry (newTable self parent) j).isPresent = false := by
  unfold newTable
  rw [getEntry_setEntry_ne _ (by omega), getEntry_setEntry_ne _ (by omega)]
  unfold DirEntry.isPresent
  rw [filename_getEntry _ _ (by omega), Buf.get_zero]
  rfl

theorem dot_ne_dotdot : dot ≠ dotdot := by decide

section newDirectory
variable {d : Disk} {k : ℕ} {b p : UInt32}

theorem inodeAt_setTable (i : ℕ) : inodeAt (putInode d k ((inodeAt d k).setBlock 0 b)) i =
    if i = k then (inodeAt d k).setBlock 0 b else inodeAt d i := inodeAt_putInode d k i _

/-- The tree part of `mkdir`'s inode update: exactly the directory `k` is added, with the
table it was given. -/
theorem isDirectory_setTable (hk : k < 64) (hused : (inodeAt d k).isUsed = true)
    (hdir : (inodeAt d k).isDir = true) (hb : IsFreeBlock d b) (i : ℕ) :
    IsDirectory (putInode d k ((inodeAt d k).setBlock 0 b)) i ↔ IsDirectory d i ∨ i = k := by
  by_cases hik : i = k
  · subst hik
    refine ⟨fun _ => Or.inr rfl, fun _ => ⟨hk, ?_, ?_, ?_⟩⟩
    · rw [inodeAt_setTable, if_pos rfl]; exact hused
    · rw [inodeAt_setTable, if_pos rfl]; exact hdir
    · rw [inodeAt_setTable, if_pos rfl, Inode.block_setBlock _ _ _ (by omega), if_pos rfl]
      intro h0
      have := hb.ge
      rw [h0] at this
      simp at this
  · have e : inodeAt (putInode d k ((inodeAt d k).setBlock 0 b)) i = inodeAt d i := by
      rw [inodeAt_setTable, if_neg hik]
    constructor
    · intro h
      exact Or.inl ⟨h.lt, e ▸ h.used, e ▸ h.dir, e ▸ h.table⟩
    · rintro (h | h)
      · exact ⟨h.lt, e.symm ▸ h.used, e.symm ▸ h.dir, e.symm ▸ h.table⟩
      · exact absurd h hik

theorem slot_setTable_old (hinv : BlockInv d) (hk : k < 64) (hnone : (inodeAt d k).block 0 = 0)
    {i : ℕ} (hi : IsDirectory d i) (j : ℕ) :
    slot (putInode d k ((inodeAt d k).setBlock 0 b)) i j = slot d i j := by
  have hik : i ≠ k := fun h => hi.table (h ▸ hnone)
  unfold slot dirBlock
  rw [inodeAt_setTable, if_neg hik]
  exact entryAt_putInode d _ hk (hinv.dirBlock_range hi).1

theorem slot_setTable_new (hk : k < 64) (hb : IsFreeBlock d b)
    (htable : d b.toNat = newTable (UInt32.ofNat k) p) (j : ℕ) :
    slot (putInode d k ((inodeAt d k).setBlock 0 b)) k j =
      getEntry (newTable (UInt32.ofNat k) p) j := by
  unfold slot dirBlock
  rw [inodeAt_setTable, if_pos rfl, Inode.block_setBlock _ _ _ (by omega), if_pos rfl,
    entryAt_putInode d _ hk hb.ge, entryAt, htable]

theorem grows_setTable (hinv : BlockInv d) (hk : k < 64) (hused : (inodeAt d k).isUsed = true)
    (hdir : (inodeAt d k).isDir = true) (hnone : (inodeAt d k).block 0 = 0)
    (hb : IsFreeBlock d b) : Grows d (putInode d k ((inodeAt d k).setBlock 0 b)) := by
  refine ⟨fun i hi => (isDirectory_setTable hk hused hdir hb i).mpr (Or.inl hi),
    fun i hi j _ _ => slot_setTable_old hinv hk hnone hi j, ?_⟩
  intro i _ hu
  rw [inodeAt_setTable]
  split_ifs with hik
  · subst hik
    exact ⟨hu, rfl⟩
  · exact ⟨hu, rfl⟩

/-- No entry of the old tree names `k`, and the new table has no entries but `.` and `..`. -/
theorem child_setTable (hinv : BlockInv d) (h : TreeInv d) (hk : k < 64)
    (hused : (inodeAt d k).isUsed = true) (hdir : (inodeAt d k).isDir = true)
    (hnone : (inodeAt d k).block 0 = 0) (hb : IsFreeBlock d b)
    (htable : d b.toNat = newTable (UInt32.ofNat k) p) {i j m : ℕ}
    (hc : Child (putInode d k ((inodeAt d k).setBlock 0 b)) i j m) : Child d i j m ∧ m ≠ k := by
  rcases (isDirectory_setTable hk hused hdir hb i).mp hc.dir with hi | rfl
  · have hp' := hc.present
    have hx := hc.idx
    rw [slot_setTable_old hinv hk hnone hi] at hp' hx
    have hc' : Child d i j m := ⟨hi, hc.two_le, hc.lt, hp', hx⟩
    refine ⟨hc', fun hmk => ?_⟩
    subst hmk
    exact ((h.child i j m hc').2 hdir).1.table hnone
  · have hp' := hc.present
    rw [slot_setTable_new hk hb htable, isPresent_newTable _ _ hc.two_le] at hp'
    cases hp'

theorem treeInv_setTable (hinv : BlockInv d) (h : TreeInv d) (hk : k < 64)
    (hused : (inodeAt d k).isUsed = true) (hdir : (inodeAt d k).isDir = true)
    (hnone : (inodeAt d k).block 0 = 0) (hb : IsFreeBlock d b)
    (htable : d b.toNat = newTable (UInt32.ofNat k) p) (hp : IsDirectory d p.toNat) :
    TreeInv (putInode d k ((inodeAt d k).setBlock 0 b)) := by
  have hdirs := isDirectory_setTable hk hused hdir hb
  have hold := fun {i} (hi : IsDirectory d i) => slot_setTable_old (b := b) hinv hk hnone hi
  have hnew := slot_setTable_new (p := p) hk hb htable
  have hg := grows_setTable hinv hk hused hdir hnone hb
  have hkn : (UInt32.ofNat k).toNat = k := by
    rw [UInt32.toNat_ofNat', Nat.mod_eq_of_lt (by omega)]
  have hchild := fun i j m =>
    child_setTable (i := i) (j := j) (m := m) hinv h hk hused hdir hnone hb htable
  refine ⟨hg.dir 0 h.root, ?_, ?_, ?_, ?_, ?_, ?_, ?_⟩
  · rw [hold h.root]
    exact h.rootUp
  · intro i hi
    rcases (hdirs i).mp hi with hi | rfl
    · rw [hold hi]
      exact h.dot i hi
    · rw [hnew, getEntry_newTable_zero]
      exact ⟨hasName_mkEntry _ _ (by decide), hkn⟩
  · intro i hi
    rcases (hdirs i).mp hi with hi | rfl
    · rw [hold hi]
      exact ⟨(h.dotdot i hi).1, hg.dir _ (h.dotdot i hi).2⟩
    · rw [hnew, getEntry_newTable_one]
      exact ⟨hasName_mkEntry _ _ (by decide), hg.dir _ hp⟩
  · intro i hi j hj hpr
    rcases (hdirs i).mp hi with hi | rfl
    · rw [hold hi] at hpr ⊢
      obtain ⟨h1, h2, h3⟩ := h.entry i hi j hj hpr
      exact ⟨h1, h2, (hg.kind _ h2 h3).1⟩
    · rw [hnew] at hpr ⊢
      rcases Nat.lt_or_ge j 2 with hj2 | hj2
      · interval_cases j
        · rw [getEntry_newTable_zero]
          refine ⟨⟨dot, hasName_mkEntry _ _ (by decide)⟩, ?_⟩
          show (UInt32.ofNat i).toNat < 64 ∧ (inodeAt _ (UInt32.ofNat i).toNat).isUsed = true
          rw [hkn]
          exact ⟨hk, (hg.kind i hk hused).1⟩
        · rw [getEntry_newTable_one]
          exact ⟨⟨dotdot, hasName_mkEntry _ _ (by decide)⟩, hp.lt, (hg.kind _ hp.lt hp.used).1⟩
      · rw [isPresent_newTable _ _ hj2] at hpr
        cases hpr
  · intro i hi j hj j' hj' hpr hpr' s hs hs'
    rcases (hdirs i).mp hi with hi | rfl
    · rw [hold hi] at hpr hpr' hs hs'
      exact h.names i hi j hj j' hj' hpr hpr' s hs hs'
    · rw [hnew] at hpr hpr' hs hs'
      have hlt : j < 2 := by
        by_contra hj2
        rw [isPresent_newTable _ _ (by omega)] at hpr
        cases hpr
      have hlt' : j' < 2 := by
        by_contra hj2
        rw [isPresent_newTable _ _ (by omega)] at hpr'
        cases hpr'
      have h0 : (getEntry (newTable (UInt32.ofNat i) p) 0).HasName dot := by
        rw [getEntry_newTable_zero]; exact hasName_mkEntry _ _ (by decide)
      have h1 : (getEntry (newTable (UInt32.ofNat i) p) 1).HasName dotdot := by
        rw [getEntry_newTable_one]; exact hasName_mkEntry _ _ (by decide)
      interval_cases j <;> interval_cases j'
      · rfl
      · exact absurd ((h0.unique hs).trans (hs'.unique h1)) dot_ne_dotdot
      · exact absurd ((h0.unique hs').trans (hs.unique h1)) dot_ne_dotdot
      · rfl
  · intro i j m hc
    obtain ⟨hc', hmk⟩ := hchild i j m hc
    obtain ⟨h0, h1⟩ := h.child i j m hc'
    refine ⟨h0, fun hd => ?_⟩
    rw [inodeAt_setTable, if_neg hmk] at hd
    obtain ⟨h2, h3⟩ := h1 hd
    exact ⟨hg.dir m h2, by rw [hold h2]; exact h3⟩
  · intro i j i' j' m hc hc'
    exact h.childUnique i j i' j' m (hchild i j m hc).1 (hchild i' j' m hc').1

end newDirectory

/-! ### A new entry appears -/

section newEntry
variable {d : Disk} {i j : ℕ} {k : UInt32} {s : CStr}

/-- The disk after `add_dir_entry` stored the name `s` for inode `k` in slot `j` of `i`. -/
def linked (d : Disk) (i j : ℕ) (k : UInt32) (s : CStr) : Disk :=
  Function.update d (dirBlock d i)
    (setEntry (d (dirBlock d i)) j (mkEntry (slot d i j).filename k s))

theorem inodeAt_linked (hinv : BlockInv d) (hi : IsDirectory d i) {m : ℕ} (hm : m < 64) :
    inodeAt (linked d i j k s) m = inodeAt d m :=
  inodeAt_update d _ hm (hinv.dirBlock_range hi).1

theorem isDirectory_linked (hinv : BlockInv d) (hi : IsDirectory d i) (m : ℕ) :
    IsDirectory (linked d i j k s) m ↔ IsDirectory d m := by
  constructor
  · intro h
    have e := inodeAt_linked (j := j) (k := k) (s := s) hinv hi h.lt
    exact ⟨h.lt, e ▸ h.used, e ▸ h.dir, e ▸ h.table⟩
  · intro h
    have e := inodeAt_linked (j := j) (k := k) (s := s) hinv hi h.lt
    exact ⟨h.lt, e.symm ▸ h.used, e.symm ▸ h.dir, e.symm ▸ h.table⟩

theorem slot_linked (hinv : BlockInv d) (hi : IsDirectory d i) (hj : j < 16) {i' : ℕ}
    (hi' : IsDirectory d i') (j' : ℕ) :
    slot (linked d i j k s) i' j' =
      if i' = i ∧ j' = j then mkEntry (slot d i j).filename k s else slot d i' j' := by
  have hb : dirBlock (linked d i j k s) i' = dirBlock d i' := by
    unfold dirBlock
    rw [inodeAt_linked hinv hi hi'.lt]
  unfold slot
  rw [hb]
  unfold linked
  by_cases hii : i' = i
  · subst hii
    rw [entryAt_update_same]
    by_cases hjj : j' = j
    · subst hjj
      rw [getEntry_setEntry_same _ hj, if_pos ⟨rfl, rfl⟩]
      rfl
    · rw [getEntry_setEntry_ne _ hjj, if_neg (fun h => hjj h.2)]
      rfl
  · rw [if_neg (fun h => hii h.1),
      entryAt_update_ne d _ (fun h => hii (hinv.dirBlock_inj hi hi' h))]

theorem grows_linked (hinv : BlockInv d) (hi : IsDirectory d i) (hj : j < 16)
    (hempty : (slot d i j).isPresent = false) : Grows d (linked d i j k s) := by
  refine ⟨fun m hm => (isDirectory_linked hinv hi m).mpr hm, ?_, ?_⟩
  · intro i' hi' j' _ hp
    rw [slot_linked hinv hi hj hi', if_neg]
    rintro ⟨rfl, rfl⟩
    rw [hempty] at hp
    cases hp
  · intro m hm hu
    rw [inodeAt_linked hinv hi hm]
    exact ⟨hu, rfl⟩

theorem treeInv_linked (hinv : BlockInv d) (h : TreeInv d) (hi : IsDirectory d i) (hj : j < 16)
    (hempty : (slot d i j).isPresent = false) (hlen : s.strlen < 28)
    (hnew : ∀ j' < 16, (slot d i j').isPresent = true → ¬ (slot d i j').HasName s)
    (hk : k.toNat < 64) (hk0 : k.toNat ≠ 0) (hused : (inodeAt d k.toNat).isUsed = true)
    (hunnamed : ∀ i' j', ¬ Child d i' j' k.toNat)
    (hdir : (inodeAt d k.toNat).isDir = true →
      IsDirectory d k.toNat ∧ (slot d k.toNat 1).inodeIdx.toNat = i) :
    TreeInv (linked d i j k s) := by
  have hdirs := isDirectory_linked (j := j) (k := k) (s := s) hinv hi
  have hslot := fun {i'} (hi' : IsDirectory d i') =>
    slot_linked (k := k) (s := s) hinv hi hj hi'
  have hg := grows_linked (k := k) (s := s) hinv hi hj hempty
  have hname : (mkEntry (slot d i j).filename k s).HasName s := hasName_mkEntry _ _ hlen
  -- `.` and `..` are present, so the empty slot is neither
  have hdot : ∀ i', IsDirectory d i' → (slot d i' 0).isPresent = true := fun i' hi' =>
    (h.dot i' hi').1.isPresent_iff.mpr (by decide)
  have hdotdot : ∀ i', IsDirectory d i' → (slot d i' 1).isPresent = true := fun i' hi' =>
    (h.dotdot i' hi').1.isPresent_iff.mpr (by decide)
  have hfix : ∀ i', IsDirectory d i' → ∀ j' < 16, (slot d i' j').isPresent = true →
      slot (linked d i j k s) i' j' = slot d i' j' := hg.entry
  have hchild : ∀ i' j' m, Child (linked d i j k s) i' j' m →
      Child d i' j' m ∨ (i' = i ∧ j' = j ∧ m = k.toNat) := by
    intro i' j' m hc
    have hi' := (hdirs i').mp hc.dir
    have hp := hc.present
    have hx := hc.idx
    rw [hslot hi'] at hp hx
    split_ifs at hp hx with hij
    · exact Or.inr ⟨hij.1, hij.2, hx.symm⟩
    · exact Or.inl ⟨hi', hc.two_le, hc.lt, hp, hx⟩
  refine ⟨hg.dir 0 h.root, ?_, ?_, ?_, ?_, ?_, ?_, ?_⟩
  · rw [hfix 0 h.root 1 (by omega) (hdotdot 0 h.root)]
    exact h.rootUp
  · intro i' hi'
    have hi' := (hdirs i').mp hi'
    rw [hfix i' hi' 0 (by omega) (hdot i' hi')]
    exact h.dot i' hi'
  · intro i' hi'
    have hi' := (hdirs i').mp hi'
    rw [hfix i' hi' 1 (by omega) (hdotdot i' hi'), hdirs]
    exact h.dotdot i' hi'
  · intro i' hi' j' hj' hp
    have hi' := (hdirs i').mp hi'
    rw [hslot hi'] at hp ⊢
    split_ifs at hp ⊢ with hij
    · exact ⟨⟨s, hname⟩, hk, (hg.kind _ hk hused).1⟩
    · obtain ⟨h1, h2, h3⟩ := h.entry i' hi' j' hj' hp
      exact ⟨h1, h2, (hg.kind _ h2 h3).1⟩
  · intro i' hi' j₁ hj₁ j₂ hj₂ hp₁ hp₂ t ht₁ ht₂
    have hi' := (hdirs i').mp hi'
    rw [hslot hi'] at hp₁ ht₁ hp₂ ht₂
    split_ifs at hp₁ ht₁ hp₂ ht₂ with e₁ e₂ e₂
    · exact e₁.2.trans e₂.2.symm
    · have hts := ht₁.unique hname
      subst hts
      obtain ⟨rfl, _⟩ := e₁
      exact absurd ht₂ (hnew j₂ hj₂ hp₂)
    · have hts := ht₂.unique hname
      subst hts
      obtain ⟨rfl, _⟩ := e₂
      exact absurd ht₁ (hnew j₁ hj₁ hp₁)
    · exact h.names i' hi' j₁ hj₁ j₂ hj₂ hp₁ hp₂ t ht₁ ht₂
  · intro i' j' m hc
    rcases hchild i' j' m hc with hc' | ⟨rfl, rfl, rfl⟩
    · obtain ⟨h0, h1⟩ := h.child i' j' m hc'
      obtain ⟨hm, _⟩ := h.child_used hc'
      refine ⟨h0, fun hd => ?_⟩
      rw [inodeAt_linked hinv hi hm] at hd
      obtain ⟨h2, h3⟩ := h1 hd
      exact ⟨hg.dir m h2, by rw [hfix m h2 1 (by omega) (hdotdot m h2)]; exact h3⟩
    · refine ⟨hk0, fun hd => ?_⟩
      rw [inodeAt_linked hinv hi hk] at hd
      obtain ⟨h2, h3⟩ := hdir hd
      exact ⟨hg.dir _ h2, by rw [hfix _ h2 1 (by omega) (hdotdot _ h2)]; exact h3⟩
  · intro i₁ j₁ i₂ j₂ m hc₁ hc₂
    rcases hchild i₁ j₁ m hc₁ with hd₁ | ⟨h1, h2, h3⟩
    · rcases hchild i₂ j₂ m hc₂ with hd₂ | ⟨_, _, h3⟩
      · exact h.childUnique i₁ j₁ i₂ j₂ m hd₁ hd₂
      · exact absurd (h3 ▸ hd₁) (hunnamed _ _)
    · rcases hchild i₂ j₂ m hc₂ with hd₂ | ⟨h1', h2', _⟩
      · exact absurd (h3 ▸ hd₂) (hunnamed _ _)
      · exact ⟨h1.trans h1'.symm, h2.trans h2'.symm⟩

end newEntry

/-! ### Every write keeps the invariant -/

theorem isDirectory_of_file {d : Disk} {k : ℕ} (hfile : (inodeAt d k).isDir = false) :
    ¬ IsDirectory d k := by
  intro h
  have := h.dir
  rw [hfile] at this
  cases this

/-- A block of a file is no directory's table. -/
theorem BlockInv.dirBlock_ne_file {d : Disk} (h : BlockInv d) {k m i : ℕ} (hk : k < 64)
    (hm : m < 30) (hused : (inodeAt d k).isUsed = true) (hfile : (inodeAt d k).isDir = false)
    (hblock : (inodeAt d k).block m ≠ 0) (hi : IsDirectory d i) :
    dirBlock d i ≠ ((inodeAt d k).block m).toNat := by
  intro he
  have := (h.unique k hk hused m hm hblock i hi.lt hi.used 0 (by omega) (UInt32.toNat.inj he)).1
  subst this
  exact isDirectory_of_file hfile hi

/-- The writes that leave the tree as it is. -/
theorem Step.sameTree_or {d : Disk} (hb : BlockInv d) {w : SectorWrite} (hw : Step d w) :
    SameTree d (w.apply d) ∨
    (∃ (k : ℕ) (b p : UInt32), k < 64 ∧ (inodeAt d k).isUsed = true ∧
      (inodeAt d k).isDir = true ∧ (inodeAt d k).block 0 = 0 ∧ IsFreeBlock d b ∧
      d b.toNat = newTable (UInt32.ofNat k) p ∧ IsDirectory d p.toNat ∧
      w.apply d = putInode d k ((inodeAt d k).setBlock 0 b)) ∨
    (∃ (i j : ℕ) (k : UInt32) (s : CStr), IsDirectory d i ∧ j < 16 ∧
      (slot d i j).isPresent = false ∧ s.strlen < 28 ∧
      (∀ j' < 16, (slot d i j').isPresent = true → ¬ (slot d i j').HasName s) ∧
      k.toNat < 64 ∧ k.toNat ≠ 0 ∧ (inodeAt d k.toNat).isUsed = true ∧
      (∀ i' j', ¬ Child d i' j' k.toNat) ∧
      ((inodeAt d k.toNat).isDir = true →
        IsDirectory d k.toNat ∧ (slot d k.toNat 1).inodeIdx.toNat = i) ∧
      w.apply d = linked d i j k s) := by
  cases hw with
  | takeInode k flags hk hfree hflags =>
      left
      refine sameTree_putInode hb hk (fun h => ?_) hflags (fun _ => by simp) (fun hu => ?_)
      · rw [h.used] at hfree
        cases hfree
      · rw [hu] at hfree
        cases hfree
  | writeTable b s hfree =>
      left
      refine sameTree_update hfree.ge s (fun i hi he => hfree.free ?_)
      exact ⟨i, hi.lt, hi.used, 0, by omega, UInt32.toNat.inj he⟩
  | setTable k b p hk hused hdir hnone hfree htable hp =>
      exact Or.inr (Or.inl ⟨k, b, p, hk, hused, hdir, hnone, hfree, htable, hp, rfl⟩)
  | link i j k s hi hj hempty hlen _ hnew hk hk0 hused hunnamed hdir =>
      exact Or.inr (Or.inr ⟨i, j, k, s, hi, hj, hempty, hlen, hnew, hk, hk0, hused, hunnamed,
        hdir, rfl⟩)
  | takeBlock k m b hk hm hused hfile hnone hfree =>
      left
      refine sameTree_putInode hb hk (isDirectory_of_file hfile) hused (fun hd => ?_) (fun _ => rfl)
      rw [Inode.isDir_setBlock, hfile] at hd
      cases hd
  | writeData k m s hk hm hused hfile hblock =>
      left
      exact sameTree_update (hb.range k hk hused m hm hblock).1 s fun i hi =>
        hb.dirBlock_ne_file hk hm hused hfile hblock hi
  | setSize k size hk hused hfile =>
      left
      refine sameTree_putInode hb hk (isDirectory_of_file hfile) hused (fun hd => ?_) (fun _ => rfl)
      have hd' : (inodeAt d k).isDir = true := hd
      rw [hfile] at hd'
      cases hd'

/-- No write removes anything from the tree. -/
theorem Step.grows {d : Disk} (h : FsInv d) {w : SectorWrite} (hw : Step d w) :
    Grows d (w.apply d) := by
  rcases hw.sameTree_or h.blocks with hs | ⟨k, b, p, hk, hu, hd, hn, hb, _, _, e⟩ |
    ⟨i, j, k, s, hi, hj, he, _, _, _, _, _, _, _, e⟩
  · exact hs.grows
  · rw [e]
    exact grows_setTable h.blocks hk hu hd hn hb
  · rw [e]
    exact grows_linked h.blocks hi hj he

theorem Step.treeInv {d : Disk} (h : FsInv d) {w : SectorWrite} (hw : Step d w) :
    TreeInv (w.apply d) := by
  rcases hw.sameTree_or h.blocks with hs | ⟨k, b, p, hk, hu, hd, hn, hb, ht, hp, e⟩ |
    ⟨i, j, k, s, hi, hj, he, hl, hnew, hk, hk0, hu, hun, hd, e⟩
  · exact hs.treeInv h.tree
  · rw [e]
    exact treeInv_setTable h.blocks h.tree hk hu hd hn hb ht hp
  · rw [e]
    exact treeInv_linked h.blocks h.tree hi hj he hl hnew hk hk0 hu hun hd

/-- No write of the file system touches the superblock. -/
theorem Step.lba_pos {d : Disk} (h : BlockInv d) {w : SectorWrite} (hw : Step d w) :
    0 < w.lba := by
  by_cases hp : w.purpose = .dirTable ∨ w.purpose = .data
  · have := hw.lba_ge h hp
    omega
  · cases hw with
    | takeInode => exact Nat.succ_pos _
    | setTable => exact Nat.succ_pos _
    | takeBlock => exact Nat.succ_pos _
    | setSize => exact Nat.succ_pos _
    | writeTable => simp at hp
    | link => simp at hp
    | writeData => simp at hp

/-- **Every write keeps the disk invariant.** -/
theorem Step.inv {d : Disk} (h : FsInv d) {w : SectorWrite} (hw : Step d w) :
    FsInv (w.apply d) := by
  refine ⟨?_, hw.blockInv h.blocks, hw.treeInv h⟩
  have hne : SUPERBLOCK_SECTOR ≠ w.lba := by
    have := hw.lba_pos h.blocks
    simp only [SUPERBLOCK_SECTOR]
    omega
  unfold SectorWrite.apply
  rw [Function.update_of_ne hne]
  exact h.superblock

end NosmeriOs.SimpleFs
