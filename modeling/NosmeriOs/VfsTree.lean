import NosmeriOs.TreeShell
import NosmeriOs.VfsGetPath
import NosmeriOs.VfsResolve

/-! # The virtual file system on a directory tree

What the calls of `fs/vfs.cpp` answer, when the disk stands for a tree.

* `NodeAt d t n i`: `n` is a node of `vfs_lookup` for `i`.  `lookupAll_node`: lookups walk the tree.
* `listing_lists`: the entries that `vfs_readdir` gives are the names of the directory.
* `Made`: what becomes of a creation, and how many inodes it leaves.  `NewNode.creates`: on the
  tree it is one of `DirTree.Creates`. -/

namespace NosmeriOs.Vfs

open Bytes SimpleFs Paths DirTree

/-! ### Lookups -/

structure NodeAt (d : Disk) (t : FsTree) (n : VfsNode) (i : ℕ) : Prop where
  ok : NodeOk d n
  idx : n.inodeIdx.toNat = i
  mem : t i ≠ none
  size : n.isDirectory = false → n.size = (inodeAt d i).size

section lookups

variable {d : Disk} {io : Io} {t : FsTree} {n : VfsNode} {i : ℕ}

theorem isDir_iff (hr : Rep d t) (hi : t i ≠ none) : t.IsDir i ↔ (inodeAt d i).isDir = true := by
  rcases hr.dir_or hi with ⟨e, he, hd⟩ | ⟨c, hc, hf⟩
  · exact iff_of_true ⟨e, he⟩ hd.dir
  · apply iff_of_false
    · exact Tree.IsFile.not_dir hc
    · simp [hf.file]

theorem NodeAt.isDirectory_iff (h : NodeAt d t n i) (hr : Rep d t) :
    n.isDirectory = true ↔ t.IsDir i := by
  rw [isDir_iff hr h.mem, ← h.idx]
  constructor
  · exact fun hn => (h.ok.dir hn).dir
  · intro hd
    by_contra hn
    have hf := (h.ok.file (by simpa using hn)).1
    rw [hf.file] at hd
    cases hd

theorem NodeAt.file (h : NodeAt d t n i) (hr : Rep d t) (hf : n.isDirectory = false) :
    ∃ c, t.IsFile i c := by
  rcases hr.dir_or h.mem with ⟨e, he, -⟩ | ⟨c, hc, -⟩
  · have := (h.isDirectory_iff hr).2 ⟨e, he⟩
    rw [hf] at this
    cases this
  · exact ⟨c, hc⟩

/-- The first entry of a directory is `.`. -/
theorem lookup_dot (hinv : TreeInv d) (hr : Rep d t) (hi : t.IsDir i) :
    t.lookup i dot = some i := by
  obtain ⟨e, he⟩ := hi
  obtain ⟨hd, hentries⟩ := hr i _ he
  obtain ⟨hname, hx⟩ := hinv.dot i hd
  rw [Tree.lookup_dir he, hentries]
  exact ⟨0, by decide, hname.isPresent_iff.2 (by decide), hname, hx⟩

theorem lookup_of_not_dir (hi : ¬ t.IsDir i) (s : CStr) : t.lookup i s = none := by
  unfold Tree.lookup
  split
  · next entries he => exact absurd ⟨entries, he⟩ hi
  · rfl

/-- `vfs_lookup` is the lookup of the tree. -/
theorem vfsLookup_node (hinv : FsInv io.disk) (hr : Rep io.disk t) (hw : Wf t)
    (hn : NodeAt io.disk t n i) (s : CStr) :
    Option.Rel (NodeAt io.disk t) (vfsLookup io n s) (t.lookup i s) := by
  by_cases hdir : n.isDirectory = true
  swap
  · have hnone : vfsLookup io n s = none := by
      unfold vfsLookup
      rw [if_pos (by simpa using hdir)]
    rw [hnone, lookup_of_not_dir (fun hd => hdir ((hn.isDirectory_iff hr).2 hd))]
    exact .none
  have hd := (hn.isDirectory_iff hr).1 hdir
  by_cases hs : s = dot
  · subst hs
    have hself : vfsLookup io n dot = some n := by
      unfold vfsLookup
      rw [if_neg (by simp [hdir]), if_pos (by decide)]
    rw [hself, lookup_dot hinv.tree hr hd]
    exact .some hn
  have hstr : ¬ CStr.strcmp s.byteAt dot = 0 := by
    rw [CStr.strcmp_eq_zero_iff]
    exact fun hh => hs (CStr.Holds.unique (fun _ _ => rfl) hh)
  have hlook := simplefsLookup_rep hinv hr (p := n.inodeIdx) (by rw [hn.idx]; exact hn.mem) s
  rw [hn.idx] at hlook
  unfold lookupResult at hlook
  cases hl : t.lookup i s with
  | none =>
      rw [hl] at hlook
      have hnone : vfsLookup io n s = none := by
        unfold vfsLookup
        rw [if_neg (by simp [hdir]), if_neg hstr, hlook]
        rfl
      rw [hnone]
      exact .none
  | some k =>
      rw [hl] at hlook
      have hk := hw.closed _ _ _ hl
      have hk64 := (hr.used hk).1
      have hto : (UInt32.ofNat k).toNat = k := toNat_ofNat_lt hk64
      have hsome : vfsLookup io n s =
          some (nodeOf s (UInt32.ofNat k) n.inodeIdx (inodeAt io.disk k)) := by
        unfold vfsLookup
        rw [if_neg (by simp [hdir]), if_neg hstr, hlook]
        dsimp only
        rw [if_neg (by omega), cUInt_natCast, simplefsGetInode, hto,
          if_neg (by simp only [INODE_COUNT]; omega), readInode_eq, hto]
        rfl
      rw [hsome]
      refine .some ⟨vfsLookup_nodeOk hinv hn.ok hsome, hto, hk, fun _ => rfl⟩

theorem lookupAll_node (hinv : FsInv io.disk) (hr : Rep io.disk t) (hw : Wf t)
    {names : List CStr} : ∀ {n : VfsNode} {i : ℕ}, NodeAt io.disk t n i →
      Option.Rel (NodeAt io.disk t) (lookupAll io n names) (t.walk i names) := by
  induction names with
  | nil => exact fun hn => .some hn
  | cons s names ih =>
      intro n i hn
      have hstep := vfsLookup_node hinv hr hw hn s
      have hcons : lookupAll io n (s :: names) =
          (vfsLookup io n s).bind fun next => lookupAll io next names := rfl
      rw [hcons, Tree.walk_cons]
      generalize vfsLookup io n s = r, t.lookup i s = q at hstep
      cases hstep with
      | some hnext => exact ih hnext
      | none => exact .none

end lookups

/-! ### Paths -/

/-- The path that a text stands for. -/
def pathOf (path : CStr) : Path CStr := ⟨path.bytes.head? = some 47, components path⟩

theorem shortComponents_of_strlen {path : CStr} (h : path.strlen ≤ 255) : ShortComponents path := by
  rw [shortComponents_iff]
  intro t ht
  have hle := length_of_mem_tokens ht
  simp only [CStr.strlen] at h
  simp only [TOKEN_SIZE]
  omega

/-- The names on the way to a directory lead to it in the tree. -/
theorem PathTo.walk_tree {d : Disk} {t : FsTree} (hr : Rep d t) (hw : Wf t) (h0 : t 0 ≠ none)
    {names : List CStr} {k : ℕ} (hp : PathTo d names k) : t.walk 0 names = some k := by
  induction hp with
  | nil => rfl
  | @snoc front i s k _ he ih =>
      have hi := Tree.walk_mem hw h0 ih
      obtain ⟨j, hc, hs⟩ := he
      rw [Tree.walk_append, ih, Option.bind_some, Tree.walk_cons]
      rcases hr.dir_or hi with ⟨e, hdir, -⟩ | ⟨c, -, hf⟩
      · have hk : e s = some k := ((hr i _ hdir).2 s k).2 ⟨j, hc.lt, hc.present, hs, hc.idx⟩
        rw [Tree.lookup_dir hdir, hk, Option.bind_some]
        rfl
      · have hfile := hf.file
        rw [hc.dir.dir] at hfile
        cases hfile

theorem Edge.ne_dotdot {d : Disk} (h : TreeInv d) {i k : ℕ} {s : CStr} (he : Edge d i s k) :
    s ≠ dotdot := by
  rintro rfl
  obtain ⟨j, hc, hs⟩ := he
  have h1 := (h.dotdot i hc.dir).1
  have hj := hc.two_le
  have := h.names i hc.dir j hc.lt 1 (by omega) hc.present (h1.isPresent_iff.2 (by decide)) _ hs h1
  omega

theorem PathTo.noDots {d : Disk} (h : TreeInv d) {names : List CStr} {k : ℕ}
    (hp : PathTo d names k) : dot ∉ names ∧ dotdot ∉ names := by
  induction hp with
  | nil => simp
  | snoc _ he ih =>
      simp only [List.mem_append, List.mem_singleton, not_or]
      exact ⟨⟨ih.1, (he.ne_dot h).symm⟩, ih.2, (he.ne_dotdot h).symm⟩

/-! ### Entries -/

section entries

variable {d : Disk} {t : FsTree} {i : ℕ}

/-- A name of a directory is one of its entries. -/
theorem lookup_iff_slot (hr : Rep d t) (hi : t.IsDir i) {s : CStr} {k : ℕ} :
    t.lookup i s = some k ↔ ∃ j < 16, (slot d i j).isPresent = true ∧ (slot d i j).HasName s ∧
      (slot d i j).inodeIdx.toNat = k := by
  obtain ⟨e, he⟩ := hi
  rw [Tree.lookup_dir he]
  exact (hr i _ he).2 s k

theorem isDirectory_of_isDir (hr : Rep d t) (hi : t.IsDir i) : IsDirectory d i := by
  obtain ⟨e, he⟩ := hi
  exact (hr i _ he).1

theorem absent_iff_lookup (hr : Rep d t) (hi : t.IsDir i) (s : CStr) :
    Absent d i s ↔ t.lookup i s = none := by
  obtain ⟨e, he⟩ := hi
  rw [Tree.lookup_dir he]
  exact hr.absent_iff he s

/-- The name in an entry of the table. -/
theorem hasName_name (hinv : TreeInv d) (hi : IsDirectory d i) {j : ℕ} (hj : j < 16)
    (hp : (slot d i j).isPresent = true) : (slot d i j).HasName (slot d i j).name := by
  obtain ⟨⟨s, hs⟩, -⟩ := hinv.entry i hi j hj hp
  rw [hs.name_eq]
  exact hs

/-- A directory with sixteen names has no entry left. -/
theorem full_iff (hinv : TreeInv d) (hr : Rep d t) (hi : t.IsDir i) :
    t.Full i ENTRIES_PER_BLOCK ↔ ∀ j < 16, (slot d i j).isPresent = true := by
  have hd := isDirectory_of_isDir hr hi
  constructor
  · rintro ⟨names, hnodup, hlen, hnames⟩ j₀ hj₀
    by_contra hempty
    have hslot : ∀ s ∈ names, ∃ j < 16, (slot d i j).isPresent = true ∧ (slot d i j).HasName s := by
      intro s hs
      obtain ⟨k, hk⟩ := Option.ne_none_iff_exists'.1 (hnames s hs)
      obtain ⟨j, hj, hp, hn, -⟩ := (lookup_iff_slot hr hi).1 hk
      exact ⟨j, hj, hp, hn⟩
    choose! f hf using hslot
    have hmaps : ∀ s ∈ names.toFinset, f s ∈ (Finset.range 16).erase j₀ := by
      intro s hs
      obtain ⟨hlt, hp, -⟩ := hf s (List.mem_toFinset.1 hs)
      refine Finset.mem_erase.2 ⟨?_, Finset.mem_range.2 hlt⟩
      intro he
      rw [he] at hp
      exact hempty hp
    have hinj : Set.InjOn f names.toFinset := by
      intro s hs u hu he
      have hfs := (hf s (List.mem_toFinset.1 hs)).2.2
      rw [he] at hfs
      exact hfs.unique (hf u (List.mem_toFinset.1 hu)).2.2
    have hcard := Finset.card_le_card_of_injOn f hmaps hinj
    rw [List.toFinset_card_of_nodup hnodup, hlen,
      Finset.card_erase_of_mem (Finset.mem_range.2 hj₀), Finset.card_range] at hcard
    exact absurd hcard (by decide)
  · intro hall
    refine ⟨(List.range 16).map fun j => (slot d i j).name, ?_, by simp [ENTRIES_PER_BLOCK], ?_⟩
    · apply List.Nodup.map_on _ List.nodup_range
      intro j hj j' hj' he
      rw [List.mem_range] at hj hj'
      have hn := hasName_name hinv hd hj (hall j hj)
      rw [he] at hn
      exact hinv.names i hd j hj j' hj' (hall j hj) (hall j' hj') _ hn
        (hasName_name hinv hd hj' (hall j' hj'))
    · intro s hs
      obtain ⟨j, hj, rfl⟩ := List.mem_map.1 hs
      rw [List.mem_range] at hj
      rw [(lookup_iff_slot hr hi).2 ⟨j, hj, hall j hj, hasName_name hinv hd hj (hall j hj), rfl⟩]
      simp

/-- What `vfs_readdir` gives for an entry. -/
def entryNode (io : Io) (dir : VfsNode) (j : ℕ) : VfsNode :=
  nodeOf (slot io.disk dir.inodeIdx.toNat j).name (slot io.disk dir.inodeIdx.toNat j).inodeIdx
    dir.inodeIdx (inodeAt io.disk (slot io.disk dir.inodeIdx.toNat j).inodeIdx.toNat)

theorem vfsReaddir_eq_some_iff {io : Io} (hinv : TreeInv io.disk) {n : VfsNode}
    (hdir : n.isDirectory = true) (hd : IsDirectory io.disk n.inodeIdx.toNat) {j : ℕ} (hj : j < 16)
    {m : VfsNode} : vfsReaddir io n j = some m ↔
      (slot io.disk n.inodeIdx.toNat j).isPresent = true ∧ entryNode io n j = m := by
  unfold vfsReaddir
  rw [if_neg (by simp [hdir])]
  by_cases hp : (slot io.disk n.inodeIdx.toNat j).isPresent = true
  · have hx := (hinv.entry _ hd j hj hp).2.1
    have hget : simplefsGetInode io (slot io.disk n.inodeIdx.toNat j).inodeIdx =
        some (inodeAt io.disk (slot io.disk n.inodeIdx.toNat j).inodeIdx.toNat) := by
      unfold simplefsGetInode
      rw [if_neg (by simp only [INODE_COUNT]; omega), readInode_eq]
    rw [simplefsGetDirentry_of_present hd hj hp, Option.map_some, hget]
    simp [hp, entryNode]
  · have hnone : simplefsGetDirentry io n.inodeIdx j = none := by
      have hentry : getEntry (ataReadSector io ((readInode io n.inodeIdx).block 0).toNat)
          (j : ℤ).toNat = slot io.disk n.inodeIdx.toNat j := rfl
      unfold simplefsGetDirentry
      dsimp only
      rw [hentry]
      simp [hp]
    rw [hnone]
    simp [hp]

/-- The names of the directory, as `vfs_readdir` gives them, and which are directories. -/
def listing (io : Io) (dir : VfsNode) : List (CStr × Bool) :=
  (List.range ENTRIES_PER_BLOCK).filterMap fun (j : ℕ) =>
    (vfsReaddir io dir j).map fun entry => (entry.name, entry.isDirectory)

theorem listing_lists {io : Io} (hinv : FsInv io.disk) (hr : Rep io.disk t) (hw : Wf t)
    {n : VfsNode} (hn : NodeAt io.disk t n i) (hdir : n.isDirectory = true) :
    t.Lists i (listing io n) := by
  have hi := (hn.isDirectory_iff hr).1 hdir
  have hd := isDirectory_of_isDir hr hi
  have hidx := hn.idx
  subst hidx
  have hmem : ∀ {s : CStr} {b : Bool} {j : ℕ}, j < 16 →
      ((vfsReaddir io n j).map (fun entry => (entry.name, entry.isDirectory)) = some (s, b) ↔
        (slot io.disk n.inodeIdx.toNat j).isPresent = true ∧
          (slot io.disk n.inodeIdx.toNat j).HasName s ∧
          (inodeAt io.disk (slot io.disk n.inodeIdx.toNat j).inodeIdx.toNat).isDir = b) := by
    intro s b j hj
    simp only [Option.map_eq_some_iff, vfsReaddir_eq_some_iff hinv.tree hdir hd hj]
    constructor
    · rintro ⟨m, ⟨hp, rfl⟩, he⟩
      obtain ⟨rfl, rfl⟩ := Prod.mk.inj he
      exact ⟨hp, hasName_name hinv.tree hd hj hp, (isDirectory_nodeOf _ _ _ _).symm⟩
    · rintro ⟨hp, hs, rfl⟩
      refine ⟨_, ⟨hp, rfl⟩, Prod.ext hs.name_eq ?_⟩
      exact isDirectory_nodeOf _ _ _ _
  constructor
  · unfold listing
    rw [List.map_filterMap]
    refine List.pairwise_filterMap.2 (List.nodup_range.imp_of_mem ?_)
    rintro j j' hj hj' hne s hs s' hs' rfl
    rw [List.mem_range] at hj hj'
    obtain ⟨⟨u, b⟩, he, rfl⟩ := Option.map_eq_some_iff.1 hs
    obtain ⟨⟨u', b'⟩, he', rfl : u' = u⟩ := Option.map_eq_some_iff.1 hs'
    obtain ⟨hp, hn, -⟩ := (hmem hj).1 he
    obtain ⟨hp', hn', -⟩ := (hmem hj').1 he'
    exact hne (hinv.tree.names _ hd j hj j' hj' hp hp' _ hn hn')
  · intro s b
    unfold listing
    simp only [List.mem_filterMap, List.mem_range, lookup_iff_slot hr hi]
    constructor
    · rintro ⟨j, hj, he⟩
      obtain ⟨hp, hs, hb⟩ := (hmem hj).1 he
      refine ⟨_, ⟨j, hj, hp, hs, rfl⟩, ?_⟩
      rw [isDir_iff hr, hb]
      exact hw.closed _ _ _ ((lookup_iff_slot hr hi).2 ⟨j, hj, hp, hs, rfl⟩)
    · rintro ⟨k, ⟨j, hj, hp, hs, rfl⟩, hb⟩
      refine ⟨j, hj, (hmem hj).2 ⟨hp, hs, ?_⟩⟩
      rw [isDir_iff hr] at hb
      · exact Bool.eq_iff_iff.2 hb.symm
      · exact hw.closed _ _ _ ((lookup_iff_slot hr hi).2 ⟨j, hj, hp, hs, rfl⟩)

end entries

/-! ### New nodes -/

/-- How many inodes are not in use. -/
def freeInodes (d : Disk) : ℕ :=
  ((Finset.range INODE_COUNT).filter fun k => (inodeAt d k).isUsed = false).card

/-- One more inode is in use. -/
def Takes (d d' : Disk) : Prop := ∃ k < 64, (inodeAt d k).isUsed = false ∧
  ∀ i < 64, ((inodeAt d' i).isUsed = true ↔ i = k ∨ (inodeAt d i).isUsed = true)

theorem Takes.freeInodes {d d' : Disk} (h : Takes d d') : freeInodes d = freeInodes d' + 1 := by
  obtain ⟨k, hk, hfree, hused⟩ := h
  have hmem : k ∈ (Finset.range INODE_COUNT).filter fun k => (inodeAt d k).isUsed = false :=
    Finset.mem_filter.2 ⟨Finset.mem_range.2 hk, hfree⟩
  have herase : (Finset.range INODE_COUNT).filter (fun k => (inodeAt d' k).isUsed = false) =
      ((Finset.range INODE_COUNT).filter fun k => (inodeAt d k).isUsed = false).erase k := by
    ext i
    simp only [Finset.mem_filter, Finset.mem_erase, Finset.mem_range, INODE_COUNT]
    constructor
    · rintro ⟨hi, hd'⟩
      have hi' := hused i hi
      simp only [hd', Bool.false_eq_true, false_iff, not_or] at hi'
      exact ⟨hi'.1, hi, by simpa using hi'.2⟩
    · rintro ⟨hik, hi, hd⟩
      refine ⟨hi, ?_⟩
      have hi' := hused i hi
      simpa [hik, hd] using hi'
  unfold Vfs.freeInodes
  rw [herase, Finset.card_erase_add_one hmem]

/-- The result of a creation in directory `p` of the disk `d`, and the disk after it. -/
inductive Made (d : Disk) (p : ℕ) (name : CStr) : ℤ → Disk → Prop
  | refused (h : ¬ (NameOk name ∧ Absent d p name)) : Made d p name (-1) d
  | noInode (h : NameOk name ∧ Absent d p name) (hfull : freeInodes d = 0) : Made d p name (-1) d
  | noSlot {d' : Disk} (h : NameOk name ∧ Absent d p name) (ht : Takes d d')
      (hfull : ∀ j < 16, (slot d p j).isPresent = true) : Made d p name (-1) d'
  | done {d' : Disk} (h : NameOk name ∧ Absent d p name) (ht : Takes d d')
      (hroom : ¬ ∀ j < 16, (slot d p j).isPresent = true) : Made d p name 0 d'

theorem freeInodes_eq_zero_iff {d : Disk} :
    freeInodes d = 0 ↔ ¬ ∃ k < 64, (inodeAt d k).isUsed = false := by
  unfold freeInodes
  rw [Finset.card_eq_zero, Finset.filter_eq_empty_iff]
  simp only [Finset.mem_range, INODE_COUNT, not_exists, not_and]

/-- A format leaves one inode in use. -/
theorem freeInodes_formatDisk (io : Io) : INODE_COUNT - 1 = freeInodes (formatDisk io).disk := by
  have hfilter : ((Finset.range INODE_COUNT).filter
      fun k => (inodeAt (formatDisk io).disk k).isUsed = false) =
        (Finset.range INODE_COUNT).erase 0 := by
    ext k
    simp only [Finset.mem_filter, Finset.mem_erase, Finset.mem_range]
    rw [and_comm]
    apply and_congr_left
    intro hk
    rw [inodeAt_formatDisk io hk]
    by_cases h0 : k = 0
    · simp [h0]
      decide
    · simp [h0]
      decide
  unfold freeInodes
  rw [hfilter, Finset.card_erase_of_mem (Finset.mem_range.2 (by decide)), Finset.card_range]

/-- The outcomes listed by `simplefsCreate_cases` and `simplefsMkdir_cases`. -/
theorem made_of_cases {io : Io} {p : ℕ} {name : CStr} {r : ℤ × Io} {failed : ℕ → Io}
    {linked : ℕ → ℕ → Io}
    (hfailed : ∀ k < 64, (inodeAt io.disk k).isUsed = false → Takes io.disk (failed k).disk)
    (hlinked : ∀ k < 64, (inodeAt io.disk k).isUsed = false → ∀ j,
      Takes io.disk (linked k j).disk)
    (h : (¬ (NameOk name ∧ Absent io.disk p name ∧ ∃ k < 64, (inodeAt io.disk k).isUsed = false) ∧
        r = (-1, io)) ∨
      (NameOk name ∧ Absent io.disk p name ∧ ∃ k < 64, (inodeAt io.disk k).isUsed = false ∧
        (((∀ j < 16, (slot io.disk p j).isPresent = true) ∧ r = (-1, failed k)) ∨
        ∃ j < 16, (slot io.disk p j).isPresent = false ∧ r = (0, linked k j)))) :
    Made io.disk p name r.1 r.2.disk := by
  rcases h with ⟨hno, rfl⟩ | ⟨hname, habs, k, hk, hfree, ⟨hfull, rfl⟩ | ⟨j, hj, hempty, rfl⟩⟩
  · by_cases h : NameOk name ∧ Absent io.disk p name
    · apply Made.noInode h
      rw [freeInodes_eq_zero_iff]
      exact fun hfree => hno ⟨h.1, h.2, hfree⟩
    · exact Made.refused h
  · exact Made.noSlot ⟨hname, habs⟩ (hfailed k hk hfree) hfull
  · refine Made.done ⟨hname, habs⟩ (hlinked k hk hfree j) fun hfull => ?_
    rw [hfull j hj] at hempty
    cases hempty

section creation

variable {io : Io} {sb : Superblock} {p : UInt32}

theorem takes_linked {d d' : Disk} {q j : ℕ} {k : UInt32} {name : CStr} (ht : Takes d d')
    (hb : BlockInv d') (hq : IsDirectory d' q) : Takes d (linked d' q j k name) := by
  obtain ⟨k, hk, hfree, hused⟩ := ht
  refine ⟨k, hk, hfree, fun i hi => ?_⟩
  rw [inodeAt_linked hb hq hi]
  exact hused i hi

theorem takes_take {k : ℕ} {flags : UInt32} (hflags : (Inode.fresh flags).isUsed = true)
    (hk : k < 64) (hfree : (inodeAt io.disk k).isUsed = false) :
    Takes io.disk (io.take k flags).disk := by
  refine ⟨k, hk, hfree, fun i _ => ?_⟩
  rw [Io.take_disk]
  by_cases hik : i = k
  · subst hik
    rw [inodeAt_putInode_same]
    simp [hflags]
  · rw [inodeAt_putInode_ne _ _ hik]
    simp [hik]

theorem takes_makeDir {k : ℕ} (hk : k < 64) (hfree : (inodeAt io.disk k).isUsed = false)
    (hspec : MakeDirSpec io sb k p) : Takes io.disk (io.makeDir sb k p).disk := by
  refine ⟨k, hk, hfree, fun i hi => ?_⟩
  rw [hspec.inode i hi]
  by_cases hik : i = k
  · rw [if_pos hik, Inode.isUsed_setBlock]
    simp only [hik, true_or, iff_true]
    decide
  · simp [hik]

theorem simplefsCreate_made (hinv : FsInv io.disk) (hp : IsDirectory io.disk p.toNat)
    (name : CStr) : Made io.disk p.toNat name (simplefsCreate io p name).1
      (simplefsCreate io p name).2.disk := by
  apply made_of_cases _ _ (simplefsCreate_cases hinv hp name)
  · exact fun k hk hfree => takes_take (by decide) hk hfree
  · intro k hk hfree j
    have hrun : SafeRun io (io.take k INODE_USED) :=
      SafeRun.step (Step.takeInode k INODE_USED hk hfree (by decide))
    exact takes_linked (takes_take (by decide) hk hfree) (hrun.inv hinv).blocks
      ((hrun.grows hinv).dir _ hp)

theorem simplefsMkdir_made (hinv : FsInv io.disk) (hsb : sb.dataBlockStart = 17)
    (hp : IsDirectory io.disk p.toNat) (name : CStr) : Made io.disk p.toNat name
      (simplefsMkdir io sb p name).1 (simplefsMkdir io sb p name).2.disk := by
  apply made_of_cases _ _ (simplefsMkdir_cases hinv hsb hp name)
  · exact fun k hk hfree => takes_makeDir hk hfree (makeDir_spec hinv hsb hk hfree hp)
  · intro k hk hfree j
    have hspec := makeDir_spec hinv hsb hk hfree hp
    exact takes_linked (takes_makeDir hk hfree hspec) (hspec.run.inv hinv).blocks
      ((hspec.dirs _).2 (Or.inl hp))

/-- A creation on the disk and on the tree. -/
structure NewNode (io : Io) (t : FsTree) (op : Op ℕ CStr UInt8) (p : ℕ) (name : CStr) (ret : ℤ)
    (io' : Io) : Prop where
  made : Made io.disk p name ret io'.disk
  step : ∃ t', DirTree.Step dot dotdot t op (decide (ret = 0)) t' ∧ Rep io'.disk t'
  run : SafeRun io io'

variable {t : FsTree} {n : VfsNode} {i : ℕ}

/-- `vfs_create` and `vfs_mkdir` look the name up before the call of the file system. -/
theorem NewNode.vfs {op : Op ℕ CStr UInt8} {name : CStr} {r : ℤ × Io} (hinv : FsInv io.disk)
    (hr : Rep io.disk t) (hw : Wf t) (hn : NodeAt io.disk t n i) (hi : t.IsDir i)
    (h : NewNode io t op i name r.1 r.2) : NewNode io t op i name
      (if (vfsLookup io n name).isSome then -1 else if r.1 < 0 then -1 else 0)
      (if (vfsLookup io n name).isSome then io else r.2) := by
  have hlook := vfsLookup_node hinv hr hw hn name
  generalize hv : vfsLookup io n name = v, hq : t.lookup i name = q at hlook
  cases hlook with
  | some hm =>
      refine ⟨Made.refused fun hc => ?_, ⟨t, DirTree.Step.fail op, hr⟩, SafeRun.refl io⟩
      rw [absent_iff_lookup hr hi, hq] at hc
      cases hc.2
  | none =>
      have hret : (if r.1 < 0 then -1 else 0) = r.1 := by
        have hmade := h.made
        generalize r.1 = ret, r.2.disk = d' at hmade
        cases hmade <;> rfl
      simp only [Option.isSome_none, Bool.false_eq_true, if_false, hret]
      exact h

theorem vfsCreate_newNode (hinv : FsInv io.disk) (hr : Rep io.disk t) (hw : Wf t)
    (hn : NodeAt io.disk t n i) (hi : t.IsDir i) (name : CStr) :
    NewNode io t (.create i name) i name (vfsCreate io n name).1 (vfsCreate io n name).2.1 := by
  have hd := isDirectory_of_isDir hr hi
  have hmem := hn.mem
  have hidx := hn.idx
  subst hidx
  have h : NewNode io t (.create n.inodeIdx.toNat name) n.inodeIdx.toNat name
      (simplefsCreate io n.inodeIdx name).1 (simplefsCreate io n.inodeIdx name).2 :=
    ⟨simplefsCreate_made hinv hd name, simplefsCreate_rep hinv hr hmem name,
      simplefsCreate_safe hinv (Or.inl hd) name⟩
  have hcall : (vfsCreate io n name).1 = (if (vfsLookup io n name).isSome then -1
        else if (simplefsCreate io n.inodeIdx name).1 < 0 then -1 else 0) ∧
      (vfsCreate io n name).2.1 = (if (vfsLookup io n name).isSome then io
        else (simplefsCreate io n.inodeIdx name).2) := by
    unfold vfsCreate
    generalize simplefsCreate io n.inodeIdx name = r
    dsimp only
    split_ifs <;> exact ⟨rfl, rfl⟩
  rw [hcall.1, hcall.2]
  exact h.vfs hinv hr hw hn hi

theorem vfsMkdir_newNode (hinv : FsInv io.disk) (hsb : sb.dataBlockStart = 17)
    (hr : Rep io.disk t) (hw : Wf t) (hn : NodeAt io.disk t n i) (hi : t.IsDir i) (name : CStr) :
    NewNode io t (.mkdir i name) i name (vfsMkdir io sb n name).1 (vfsMkdir io sb n name).2.1 := by
  have hd := isDirectory_of_isDir hr hi
  have hmem := hn.mem
  have hidx := hn.idx
  subst hidx
  have h : NewNode io t (.mkdir n.inodeIdx.toNat name) n.inodeIdx.toNat name
      (simplefsMkdir io sb n.inodeIdx name).1 (simplefsMkdir io sb n.inodeIdx name).2 :=
    ⟨simplefsMkdir_made hinv hsb hd name, simplefsMkdir_rep hinv hsb hr hmem name,
      simplefsMkdir_safe hinv hsb (Or.inl hd) name⟩
  have hcall : (vfsMkdir io sb n name).1 = (if (vfsLookup io n name).isSome then -1
        else if (simplefsMkdir io sb n.inodeIdx name).1 < 0 then -1 else 0) ∧
      (vfsMkdir io sb n name).2.1 = (if (vfsLookup io n name).isSome then io
        else (simplefsMkdir io sb n.inodeIdx name).2) := by
    unfold vfsMkdir
    generalize simplefsMkdir io sb n.inodeIdx name = r
    dsimp only
    split_ifs <;> exact ⟨rfl, rfl⟩
  rw [hcall.1, hcall.2]
  exact h.vfs hinv hr hw hn hi

/-- A new name is that of an entry, a directory has sixteen of them, and a path is shown when it
fits into a buffer for `vfs_get_path`. -/
def limits (bufSize : ℕ) : Limits CStr where
  good := NameOk
  slots := ENTRIES_PER_BLOCK
  shown names := names = [] ∨ (pathText names).strlen + 2 ≤ bufSize

/-- What the caller of a creation sees, on the desk. -/
theorem NewNode.creates {a : Desk ℕ CStr UInt8} {op : Op ℕ CStr UInt8} {name : CStr} {ret : ℤ}
    {io' : Io} {node : ℕ → Node ℕ CStr UInt8} (h : NewNode io a.tree op a.cwd name ret io')
    (hinv : FsInv io.disk) (hr : Rep io.disk a.tree) (hcwd : a.tree.IsDir a.cwd)
    (hspare : a.spare = freeInodes io.disk)
    (hop : ∀ t', DirTree.Step dot dotdot a.tree op true t' →
      ∃ k, a.tree k = none ∧ t' = a.tree.add a.cwd name k (node k)) (bufSize : ℕ) :
    ∃ ans a', Creates (limits bufSize) a name node ans a' ∧ Rep io'.disk a'.tree ∧
      a'.spare = freeInodes io'.disk ∧ ((ret = 0 ∧ ans = .done) ∨ (ret ≠ 0 ∧ ans = .failed)) := by
  have hgood : NameOk name ∧ Absent io.disk a.cwd name ↔
      (limits bufSize).good name ∧ a.tree.lookup a.cwd name = none :=
    and_congr_right fun _ => absent_iff_lookup hr hcwd name
  have hfull := full_iff hinv.tree hr hcwd
  have hfail : ret = -1 → Rep io'.disk a.tree := by
    rintro rfl
    obtain ⟨t', hs, hrep⟩ := h.step
    cases hs
    exact hrep
  obtain ⟨hmade, ⟨t', hs, hrep⟩, -⟩ := h
  generalize io'.disk = d' at hmade hrep hfail
  cases hmade with
  | refused hno => exact ⟨_, a, .refused fun hc => hno (hgood.2 hc), hr, hspare, by simp⟩
  | noInode hc hzero =>
      exact ⟨_, a, .noSpare (hgood.1 hc) (hspare.trans hzero), hr, hspare, by simp⟩
  | noSlot hc ht hall =>
      exact ⟨_, { a with spare := freeInodes d' }, .noSlot (hgood.1 hc)
        (hspare.trans ht.freeInodes) (hfull.2 hall), hfail rfl, rfl, by simp⟩
  | done hc ht hroom =>
      obtain ⟨k, hk, rfl⟩ := hop t' hs
      exact ⟨_, _, .done (hgood.1 hc) (hspare.trans ht.freeInodes)
        (fun hf => hroom (hfull.1 hf)) hk, hrep, rfl, by simp⟩

end creation

/-! ### Contents -/

section contents

variable {io : Io} {sb : Superblock} {t : FsTree} {n : VfsNode} {i : ℕ}

/-- A write to a file, on the disk and on the tree. -/
structure Written (io : Io) (t : FsTree) (i : ℕ) (content : List UInt8) (io' : Io) : Prop where
  rep : Rep io'.disk (t.write i content)
  run : SafeRun io io'
  free : freeInodes io'.disk = freeInodes io.disk

theorem vfsWrite_written (hinv : FsInv io.disk) (hsb : sb.dataBlockStart = 17)
    (hr : Rep io.disk t) (hn : NodeAt io.disk t n i) (hf : n.isDirectory = false)
    (buf : ℕ → UInt8) {size : UInt32} (hsize : size.toNat ≤ 30 * 512) :
    (vfsWrite io sb n buf size).1 = 0 ∧
      Written io t i (contentOf buf size) (vfsWrite io sb n buf size).2.1 := by
  obtain ⟨hl, hfile⟩ := hn.ok.handle hinv hf
  have hcu : (cUInt (n.inodeIdx.toNat : ℤ)).toNat = n.inodeIdx.toNat := by
    rw [cUInt_natCast, toNat_ofNat_lt hfile.lt]
  have hblocks : ((size + 511) / 512).toNat ≤ 30 := by
    rw [toNat_neededBlocks hsize]
    omega
  obtain ⟨hret, hnode, hsame⟩ := simplefsWrite_file hinv hsb hl hfile buf hsize
  obtain ⟨-, hdone⟩ := simplefsWrite_done hinv hsb hl hfile buf hblocks
  have hrun := simplefsWrite_safe hinv hsb n.parentIdx n.name buf size
    (Or.inr (by rw [hl, hcu]; exact hfile))
  obtain ⟨hzero, hio⟩ := vfsWrite_of_file hf buf size hret
  rw [hio]
  have hidx := hn.idx
  subst hidx
  refine ⟨hzero, hr.write hnode hsame, hrun, ?_⟩
  have hused : ∀ k < 64,
      (inodeAt (simplefsWrite io sb n.parentIdx n.name buf size).2.disk k).isUsed =
        (inodeAt io.disk k).isUsed := by
    intro k hk
    by_cases hkn : k = n.inodeIdx.toNat
    · rw [hkn]
      unfold Inode.isUsed
      rw [hdone.flags]
    · rw [hdone.others k hk hkn]
  apply congrArg Finset.card
  apply Finset.filter_congr
  intro k hk
  rw [hused k (Finset.mem_range.1 hk)]

theorem vfsRead_node (hinv : FsInv io.disk) (hr : Rep io.disk t) (hn : NodeAt io.disk t n i)
    (hf : n.isDirectory = false) {c : List UInt8} (hc : t.IsFile i c) :
    n.size.toNat = c.length ∧ vfsRead io n n.size = some ((c.length : ℤ), c) := by
  obtain ⟨-, hholds⟩ := hr i _ hc
  have hsize : n.size.toNat = c.length := by
    rw [hn.size hf]
    exact hholds.size
  obtain ⟨hl, hfile⟩ := hn.ok.handle hinv hf
  have hidx := hn.idx
  subst hidx
  refine ⟨hsize, ?_⟩
  unfold vfsRead
  rw [if_neg (by simp [hf]), simplefsRead_file hl hfile hholds, hsize, Nat.min_self,
    List.take_length]

end contents

/-! ### The working directory -/

/-- What `vfs_get_path` leaves at the start of the buffer, as a string. -/
theorem vfsGetPathOut_text {io : Io} (hinv : FsInv io.disk) {n : VfsNode} {names : List CStr}
    (hp : PathTo io.disk names n.inodeIdx.toNat) (hdir : n.isDirectory = true)
    (hd : IsDirectory io.disk n.inodeIdx.toNat) {bufSize : UInt32} (h2 : 2 ≤ bufSize.toNat)
    (hint : bufSize.toNat ≤ 2 ^ 31) (buf : ℤ → UInt8) :
    ((limits bufSize.toNat).shown names ∧ (vfsGetPathOut io n bufSize buf).1 = 0 ∧
      CStr.ofMem bufSize.toNat (fun k : ℕ => (vfsGetPathOut io n bufSize buf).2.bytes k) =
        pathText names) ∨
    (¬ (limits bufSize.toNat).shown names ∧ (vfsGetPathOut io n bufSize buf).1 = -1) := by
  have hsize : bufSize ≠ 0 := by
    rintro rfl
    exact absurd h2 (by decide)
  have htext : (vfsGetPathOut io n bufSize buf).1 = 0 →
      CStr.ofMem bufSize.toNat (fun k : ℕ => (vfsGetPathOut io n bufSize buf).2.bytes k) =
        pathText names := by
    intro hret
    have hout := vfsGetPath_eq_out io n bufSize buf
    rw [if_pos hret] at hout
    obtain ⟨hholds, hlen⟩ := vfsGetPath_holds hinv hdir hd hp hout
    exact CStr.ofMem_of_holds hholds (hlen h2)
  by_cases hnames : names = []
  · have h0 : n.inodeIdx = 0 := by
      rw [hnames] at hp
      exact UInt32.toNat.inj hp.eq_root
    have hret := (@vfsGetPathOut_root io n h0 bufSize hsize buf).1
    exact Or.inl ⟨Or.inl hnames, hret, htext hret⟩
  · have hret := (vfsGetPathOut_below hinv hnames hp hdir hd hsize hint buf).2
    by_cases hfit : (pathText names).strlen + 2 ≤ bufSize.toNat
    · rw [if_pos hfit] at hret
      exact Or.inl ⟨Or.inr hfit, hret, htext hret⟩
    · rw [if_neg hfit] at hret
      exact Or.inr ⟨not_or.2 ⟨hnames, hfit⟩, hret⟩

end NosmeriOs.Vfs
