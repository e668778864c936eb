import NosmeriOs.HostToolPut

/-! # Images edited by kernel and host tool in turn

* `ImageInv`: well-formed, and the empty slots of the root table are zeroed.  The kernel writes
  a name over the bytes of an empty slot and the tool pads it with zeros, so without this the two
  would not even write the same entry.
* Every write of the kernel keeps it (`Step.imageInv`), and so do `put` (`ImageInv.put`) and `rm`
  (`ImageInv.rm`) of regular files; hence every `Reachable` image has it.
* `reachable_put_rm`: what the kernel sees after the tool has overwritten or removed a file. -/

namespace NosmeriOs.HostTool

open Bytes SimpleFs

/-- Well-formed, with the names of the empty slots of the root table zeroed. -/
structure ImageInv (d : Disk) : Prop extends WellFormed d where
  zeroed : ∀ j < ENTRIES_PER_BLOCK, (slot d 0 j).isPresent = false →
    (slot d 0 j).filename = Buf.zero

theorem imageInv_format (io : Io) : ImageInv (formatDisk io).disk := by
  refine ⟨wellFormed_format io, fun j hj hp => ?_⟩
  rw [slot_formatDisk] at hp ⊢
  obtain rfl | rfl | hj2 : j = 0 ∨ j = 1 ∨ 2 ≤ j := by omega
  · rw [getEntry_newTable_zero] at hp
    exact absurd hp (by decide)
  · rw [getEntry_newTable_one] at hp
    exact absurd hp (by decide)
  · unfold newTable
    rw [getEntry_setEntry_ne _ (by omega), getEntry_setEntry_ne _ (by omega)]
    apply Buf.ext
    intro i hi
    rw [filename_getEntry _ _ hi, Buf.get_zero, Buf.get_zero]

/-! ### The kernel's writes -/

/-- An inode that is not in use after a write is as it was. -/
theorem step_unused {d : Disk} (h : BlockInv d) {w : SectorWrite} (hw : Step d w) {i : ℕ}
    (hi : i < 64) (hfree : (inodeAt (w.apply d) i).isUsed = false) :
    inodeAt (w.apply d) i = inodeAt d i := by
  have hput : ∀ (k : ℕ) (n : Inode), n.isUsed = true →
      (inodeAt (putInode d k n) i).isUsed = false → inodeAt (putInode d k n) i = inodeAt d i := by
    intro k n hn hf
    rw [inodeAt_putInode] at hf ⊢
    split_ifs at hf ⊢ with hik
    · rw [hn] at hf
      cases hf
    · rfl
  cases hw with
  | takeInode k flags hk hfree' hflags => exact hput k _ hflags hfree
  | writeTable b s hb => exact inodeAt_update _ _ hi hb.ge
  | setTable k b p hk hused hdir hnone hb htable hp => exact hput k _ hused hfree
  | link i' j k s hi' =>
      exact inodeAt_update _ _ hi (h.dirBlock_range hi').1
  | takeBlock k m b hk hm hused hfile hnone hb => exact hput k _ hused hfree
  | writeData k m s hk hm hused hfile hblock =>
      exact inodeAt_update _ _ hi (h.range k hk hused m hm hblock).1
  | setSize k size hk hused hfile => exact hput k _ hused hfree

theorem filename_mkEntry_empty (k : UInt32) {s : CStr} (h : s.strlen = 0) :
    (mkEntry Buf.zero k s).filename = Buf.zero := by
  unfold mkEntry
  apply Buf.ext
  intro i hi
  rw [h, Buf.get_zero]
  by_cases hi0 : i = 0
  · subst hi0
    have hb := Buf.get_blit_in (Buf.zero : Buf MAX_FILENAME) 0 1 s.byteAt (k := 0) (by omega) hi
    rw [Nat.zero_add] at hb ⊢
    rw [hb, ← h, s.byteAt_strlen]
  · rw [Buf.get_blit_out _ _ (by omega), Buf.get_zero]

/-- Naming something in an empty slot keeps the other empty slots of the root zeroed. -/
theorem zeroed_linked {d : Disk} (h : ImageInv d) {i j : ℕ} {k : UInt32} {s : CStr}
    (hi : IsDirectory d i) (hj : j < 16) (hempty : (slot d i j).isPresent = false)
    (hlen : s.strlen < 28) : ∀ j' < 16, (slot (linked d i j k s) 0 j').isPresent = false →
      (slot (linked d i j k s) 0 j').filename = Buf.zero := by
  intro j' hj' hp
  rw [slot_linked h.blocks hi hj h.tree.root] at hp ⊢
  split_ifs at hp ⊢ with hij
  · obtain ⟨hi0, -⟩ := hij
    subst hi0
    have hs : s.strlen = 0 := by
      by_contra hne
      rw [(hasName_mkEntry _ _ hlen).isPresent_iff.2 hne] at hp
      cases hp
    rw [h.zeroed j hj hempty]
    exact filename_mkEntry_empty k hs
  · exact h.zeroed j' hj' hp

theorem Step.imageInv {d : Disk} (h : ImageInv d) {w : SectorWrite} (hw : Step d w) :
    ImageInv (w.apply d) := by
  refine ⟨⟨hw.inv h.toFsInv, fun i hi hfree => ?_⟩, fun j hj hp => ?_⟩
  · have he := step_unused h.blocks hw hi hfree
    rw [he] at hfree ⊢
    exact h.clean i hi hfree
  · obtain hs | ⟨k, b, p, hk, hused, hdir, hnone, hb, htable, -, he⟩ |
      ⟨i, j', k, s, hi, hj', hempty, hlen, -, -, -, -, -, -, he⟩ := hw.sameTree_or h.blocks
    · rw [hs.slots 0 h.tree.root] at hp ⊢
      exact h.zeroed j hj hp
    · rw [he, slot_setTable_old h.blocks hk hnone h.tree.root] at hp ⊢
      exact h.zeroed j hj hp
    · rw [he] at hp ⊢
      exact zeroed_linked h hi hj' hempty hlen j hj hp

theorem safe_imageInv {io : Io} {ws : List SectorWrite} (hs : Safe io.disk ws)
    (h : ImageInv io.disk) : ImageInv (io.replay ws).disk := by
  induction ws generalizing io with
  | nil => exact h
  | cons w ws ih =>
      cases hs with
      | cons hw hrest => exact @ih (io.write w) hrest (Step.imageInv h hw)

theorem safeRun_imageInv {io io' : Io} (hs : SafeRun io io') (h : ImageInv io.disk) :
    ImageInv io'.disk := by
  obtain ⟨ws, hws, rfl⟩ := hs
  exact safe_imageInv hws h

/-! ### `put` -/

section put

variable {d : Disk} {f : HostFile} {t : PyStr} {data : List UInt8}

theorem Stored.imageInv {d' : Disk} {k : ℕ} {bs : List ℕ} (hs : Stored d d' k bs data)
    (h : ImageInv d) (hk : k < 64)
    (hfile : (inodeAt d k).isUsed = true → (inodeAt d k).isDir = false)
    (ha : Assignable d k bs) (hlen : bs.length ≤ 30) : ImageInv d' := by
  refine ⟨⟨hs.fsInv h.toFsInv hk hfile ha hlen, fun i hi hfree => ?_⟩, fun j hj hp => ?_⟩
  · have hik : i ≠ k := by
      rintro rfl
      rw [hs.isUsed] at hfree
      cases hfree
    rw [hs.others i hi hik] at hfree ⊢
    exact h.clean i hi hfree
  · rw [(hs.sameTree h.blocks hk hfile ha).slots 0 h.tree.root] at hp ⊢
    exact h.zeroed j hj hp

/-- The name as a C string. -/
def nameOf (t : PyStr) (h : IsAscii t) (h0 : 0 ∉ t) : CStr := ⟨t.map UInt8.ofNat, by
  rw [List.mem_map]
  rintro ⟨c, hc, he⟩
  have hlt := h c hc
  have hn := congrArg UInt8.toNat he
  rw [UInt8.toNat_ofNat'] at hn
  have hz : (0 : UInt8).toNat = 0 := rfl
  have : c = 0 := by omega
  exact h0 (this ▸ hc)⟩

theorem strlen_nameOf (h : IsAscii t) (h0 : 0 ∉ t) : (nameOf t h h0).strlen = t.length := by
  simp [nameOf, CStr.strlen]

theorem decodeName_nameOf (h : IsAscii t) (h0 : 0 ∉ t) : decodeName (nameOf t h h0).bytes = t := by
  unfold decodeName nameOf
  dsimp only
  rw [List.map_map]
  refine (List.map_congr_left fun c hc => ?_).trans (List.map_id t)
  have hlt := h c hc
  have hn : (UInt8.ofNat c).toNat = c := by
    rw [UInt8.toNat_ofNat']
    omega
  simp [hn, hlt]

/-- Over a zeroed slot the kernel would write the same entry. -/
theorem toolEntry_eq (k : ℕ) (h : IsAscii t) (h0 : 0 ∉ t) :
    toolEntry k (t.map UInt8.ofNat) = mkEntry Buf.zero (UInt32.ofNat k) (nameOf t h h0) := by
  have hstr := strlen_nameOf h h0
  apply DirEntry.ext_get
  · rfl
  intro i hi
  have hl : (toolEntry k (t.map UInt8.ofNat)).filename.get i = (nameOf t h h0).byteAt i :=
    Buf.get_ofFn (fun i => (t.map UInt8.ofNat).getD i 0) hi
  rw [hl]
  unfold mkEntry
  by_cases hin : i < t.length + 1
  · have hb := Buf.get_blit_in (Buf.zero : Buf MAX_FILENAME) 0 ((nameOf t h h0).strlen + 1)
      (nameOf t h h0).byteAt (k := i) (by omega) (by simp only [MAX_FILENAME]; omega)
    rw [Nat.zero_add] at hb
    exact hb.symm
  · rw [Buf.get_blit_out _ _ (by omega), Buf.get_zero]
    unfold CStr.byteAt
    rw [List.getD_eq_default]
    have : (nameOf t h h0).bytes.length = t.length := hstr
    omega

/-- A name the tool does not find is in no slot. -/
theorem absent_of_findTarget (h : IsAscii t) (h0 : 0 ∉ t)
    (ht : findTarget d t = none) : Absent d 0 (nameOf t h h0) := by
  intro j hj hp hname
  have hne := findTarget_none ht hj hp
  rw [slotName_of_hasName hname, decodeName_nameOf] at hne
  exact hne rfl

/-- Giving an unnamed file a name in the root keeps the invariant. -/
theorem imageInv_linked (h : ImageInv d) {j k : ℕ} {s : CStr} (hj : firstEmpty d 0 = some j)
    (hlen : s.strlen < 28) (habs : Absent d 0 s) (hk : k < 64) (hk0 : k ≠ 0)
    (hused : (inodeAt d k).isUsed = true) (hfile : (inodeAt d k).isDir = false)
    (hunnamed : ∀ i j, ¬ Child d i j k) : ImageInv (linked d 0 j (UInt32.ofNat k) s) := by
  obtain ⟨hj16, hempty, -⟩ := firstEmpty_eq_some_iff.1 hj
  have hge := (h.blocks.dirBlock_range h.tree.root).1
  have hcu := toNat_ofNat_lt hk
  refine ⟨⟨⟨?_, h.blocks.update hge _, ?_⟩, fun i hi hfree => ?_⟩,
    zeroed_linked h h.tree.root hj16 hempty hlen⟩
  · have hne : SUPERBLOCK_SECTOR ≠ dirBlock d 0 := by
      simp only [SUPERBLOCK_SECTOR]
      omega
    unfold linked
    rw [Function.update_of_ne hne]
    exact h.superblock
  · refine treeInv_linked h.blocks h.tree h.tree.root hj16 hempty hlen habs ?_ ?_ ?_ ?_ ?_
    · rw [hcu]
      exact hk
    · rw [hcu]
      exact hk0
    · rw [hcu]
      exact hused
    · rw [hcu]
      exact hunnamed
    · rw [hcu, hfile]
      intro hd
      cases hd
  · rw [inodeAt_linked h.blocks h.tree.root hi] at hfree ⊢
    exact h.clean i hi hfree

theorem newFile_imageInv (h : ImageInv d) {k : ℕ} (hk : firstFree d = some k)
    (hcount : blockCount data ≤ 30) : ImageInv (newFile d k data) := by
  obtain ⟨hk64, hfree, -⟩ := firstFree_eq_some_iff.1 hk
  refine (newFile_stored hk64 data).imageInv h hk64 ?_ (assignable_free d k _) ?_
  · intro hu
    rw [hfree] at hu
    cases hu
  · rw [length_newBlocks hcount]
    exact hcount

/-- A new file with its entry. -/
theorem addRootEntry_newFile (h : ImageInv d) {k j : ℕ} (hk : firstFree d = some k)
    (hj : firstEmpty d 0 = some j) (hasc : IsAscii t) (h0 : 0 ∉ t)
    (hcount : blockCount data ≤ 30) :
    addRootEntry formatSuperblock (newFile d k data) k t =
      (.ok (), linked (newFile d k data) 0 j (UInt32.ofNat k) (nameOf t hasc h0)) := by
  have hs := newFile_sameTree h.toFsInv hk data
  have hj' : firstEmpty (newFile d k data) 0 = some j := by
    rw [firstEmpty_congr (hs.slots 0 h.tree.root)]
    exact hj
  obtain ⟨hj16, hempty, -⟩ := firstEmpty_eq_some_iff.1 hj'
  have hz := (newFile_imageInv h hk hcount).zeroed j hj16 hempty
  rw [addRootEntry_of_ascii hj' hasc, toolEntry_eq k hasc h0]
  unfold linked
  rw [hz]

theorem put_new_imageInv (h : ImageInv d) {k j : ℕ} (hk : firstFree d = some k)
    (hj : firstEmpty d 0 = some j) (hlen : t.length < 28) (hasc : IsAscii t) (h0 : 0 ∉ t)
    (ht : findTarget d t = none) (hcount : blockCount data ≤ 30) :
    ImageInv (linked (newFile d k data) 0 j (UInt32.ofNat k) (nameOf t hasc h0)) := by
  obtain ⟨hk64, hfree, -⟩ := firstFree_eq_some_iff.1 hk
  have hs := newFile_sameTree h.toFsInv hk data
  have hstored := newFile_stored (d := d) hk64 data
  obtain ⟨hk0, hunnamed⟩ := h.tree.unnamed_of_free hfree
  have hslots := hs.slots 0 h.tree.root
  refine imageInv_linked (newFile_imageInv h hk hcount) ?_ (by rw [strlen_nameOf]; exact hlen) ?_
    hk64 hk0 hstored.isUsed hstored.isDir ?_
  · rw [firstEmpty_congr hslots]
    exact hj
  · exact absent_congr hslots (absent_of_findTarget hasc h0 ht)
  · intro i' j' hc
    exact hunnamed i' j' (hs.child_iff.1 hc)

/-- The command does not lead to a directory. -/
def RegularTarget (d : Disk) (t : PyStr) : Prop :=
  ∀ j, findTarget d t = some j → (inodeAt d (slot d 0 j).inodeIdx.toNat).isDir = false

/-- `put` over a file or under a new name keeps the invariant, also when it fails. -/
theorem ImageInv.put (h : ImageInv d) (f : HostFile) (h0 : 0 ∉ t) (hreg : RegularTarget d t) :
    ImageInv (HostTool.put d f t).2 := by
  by_cases hacc : ∃ data, Accepted f t data
  · obtain ⟨data, ha⟩ := hacc
    cases ht : findTarget d t with
    | some j =>
        obtain ⟨hj16, hp, -⟩ := findTarget_some ht
        obtain ⟨-, hlt, hused⟩ := h.tree.entry 0 h.tree.root j hj16 hp
        have hkept := assignable_kept h.blocks hlt hused (blockCount data)
        rw [put_of_found h.toFsInv ha ht]
        refine (storeFile_spec hlt hkept data).imageInv h hlt (fun _ => hreg j ht) hkept ?_
        rw [length_keptBlocks _ _ ha.count]
        exact ha.count
    | none =>
        cases hk : firstFree d with
        | none =>
            rw [put_of_no_inode h.toFsInv ha ht hk]
            exact h
        | some k =>
            have hnew := newFile_imageInv h hk ha.count
            have hslots := (newFile_sameTree h.toFsInv hk data).slots 0 h.tree.root
            rw [put_of_new h.toFsInv ha ht hk]
            cases hj : firstEmpty d 0 with
            | none =>
                rw [addRootEntry_of_full ((firstEmpty_congr hslots).trans hj)]
                exact hnew
            | some j =>
                by_cases hasc : IsAscii t
                · rw [addRootEntry_newFile h hk hj hasc h0 ha.count]
                  exact put_new_imageInv h hk hj ha.name hasc h0 ht ha.count
                · rw [addRootEntry_of_not_ascii ((firstEmpty_congr hslots).trans hj) hasc]
                  exact hnew
  · obtain ⟨e', he'⟩ := put_of_reject h.toFsInv (not_exists.1 hacc)
    rw [he']
    exact h

end put

/-! ### `rm` -/

/-- The image after the file `k` in slot `j` of the root has been removed. -/
def removed (d : Disk) (j k : ℕ) : Disk :=
  Function.update (putInode d k (Inode.fresh 0)) (dirBlock d 0)
    (setEntry (d (dirBlock d 0)) j ⟨0, Buf.zero⟩)

theorem blit_zero (s : Sector) (j : ℕ) :
    (s.blit (32 * j) 32 fun _ => 0) = setEntry s j ⟨0, Buf.zero⟩ := by
  have hbyte : ∀ i < 32, (0 : UInt8) = (⟨0, Buf.zero⟩ : DirEntry).byteAt i := by
    intro i hi
    unfold DirEntry.byteAt
    split_ifs with h4
    · simp [leByte]
    · exact (Buf.get_zero _).symm
  apply Buf.ext
  intro i hi
  unfold setEntry
  by_cases hin : 32 * j ≤ i ∧ i < 32 * j + 32
  · obtain ⟨m, rfl⟩ := Nat.exists_eq_add_of_le hin.1
    rw [Buf.get_blit_in _ _ _ _ (by omega) hi, Buf.get_blit_in _ _ _ _ (by omega) hi]
    exact hbyte m (by omega)
  · rw [Buf.get_blit_out _ _ (by omega), Buf.get_blit_out _ _ (by omega)]

/-- Slot `j` of the root names the file `k`. -/
structure NamesFile (d : Disk) (j k : ℕ) : Prop where
  lt : j < 16
  present : (slot d 0 j).isPresent = true
  idx : (slot d 0 j).inodeIdx.toNat = k
  file : (inodeAt d k).isDir = false

namespace NamesFile

variable {d : Disk} {j k : ℕ}

theorem two_le (hn : NamesFile d j k) (h : FsInv d) : 2 ≤ j := by
  have hfile := hn.file
  by_contra hlt
  obtain rfl | rfl : j = 0 ∨ j = 1 := by omega
  · rw [← hn.idx, (h.tree.dot 0 h.tree.root).2, h.tree.root.dir] at hfile
    cases hfile
  · rw [← hn.idx, (h.tree.dotdot 0 h.tree.root).2.dir] at hfile
    cases hfile

theorem child (hn : NamesFile d j k) (h : FsInv d) : Child d 0 j k :=
  ⟨h.tree.root, hn.two_le h, hn.lt, hn.present, hn.idx⟩

theorem used (hn : NamesFile d j k) (h : FsInv d) : k < 64 ∧ (inodeAt d k).isUsed = true :=
  h.tree.child_used (hn.child h)

theorem lookup (hn : NamesFile d j k) (h : FsInv d) {s : CStr} (hname : (slot d 0 j).HasName s) :
    simplefsLookup ⟨d, []⟩ 0 s = k := by
  obtain ⟨-, ha⟩ | ⟨j', hj', hp, hname', -, hl⟩ :=
    @simplefsLookup_cases ⟨d, []⟩ h.tree 0 h.tree.root s
  · exact absurd hname (ha j hn.lt hn.present)
  · have he := h.tree.names 0 h.tree.root j' hj' j hn.lt hp hn.present s hname' hname
    subst he
    rw [hl]
    exact congrArg _ hn.idx

theorem ne_of_dir (hn : NamesFile d j k) {i : ℕ} (hi : IsDirectory d i) : i ≠ k := by
  rintro rfl
  have := hn.file
  rw [hi.dir] at this
  cases this

theorem inodeAt_removed (h : FsInv d) {i : ℕ} (hi : i < 64) :
    inodeAt (removed d j k) i = if i = k then Inode.fresh 0 else inodeAt d i := by
  unfold removed
  rw [inodeAt_update _ _ hi (h.blocks.dirBlock_range h.tree.root).1, inodeAt_putInode]

theorem isDirectory_removed (hn : NamesFile d j k) (h : FsInv d) (i : ℕ) :
    IsDirectory (removed d j k) i ↔ IsDirectory d i := by
  constructor
  · rintro ⟨hlt, hu, hd, ht⟩
    rw [inodeAt_removed h hlt] at hu hd ht
    split_ifs at hu hd ht with hik
    · exact absurd hu (by decide)
    · exact ⟨hlt, hu, hd, ht⟩
  · intro hi
    have he := inodeAt_removed (j := j) (k := k) h hi.lt
    rw [if_neg (hn.ne_of_dir hi)] at he
    refine ⟨hi.lt, ?_, ?_, ?_⟩
    · rw [he]
      exact hi.used
    · rw [he]
      exact hi.dir
    · rw [he]
      exact hi.table

theorem slot_removed (hn : NamesFile d j k) (h : FsInv d) {i : ℕ} (hi : IsDirectory d i) (j' : ℕ) :
    slot (removed d j k) i j' = if i = 0 ∧ j' = j then ⟨0, Buf.zero⟩ else slot d i j' := by
  have hk := (hn.used h).1
  have hb : dirBlock (removed d j k) i = dirBlock d i := by
    unfold dirBlock
    rw [inodeAt_removed h hi.lt, if_neg (hn.ne_of_dir hi)]
  unfold slot
  rw [hb]
  unfold removed
  by_cases hi0 : i = 0
  · subst hi0
    rw [entryAt_update_same]
    by_cases hjj : j' = j
    · subst hjj
      rw [getEntry_setEntry_same _ hn.lt, if_pos ⟨rfl, rfl⟩]
    · rw [getEntry_setEntry_ne _ hjj, if_neg (fun h => hjj h.2)]
      rfl
  · rw [if_neg (fun h => hi0 h.1),
      entryAt_update_ne _ _ (fun he => hi0 (h.blocks.dirBlock_inj h.tree.root hi he)),
      entryAt_putInode _ _ hk (h.blocks.dirBlock_range hi).1]

theorem present_removed (hn : NamesFile d j k) (h : FsInv d) {i j' : ℕ} (hi : IsDirectory d i)
    (hp : (slot (removed d j k) i j').isPresent = true) :
    ¬ (i = 0 ∧ j' = j) ∧ slot (removed d j k) i j' = slot d i j' := by
  have hs := hn.slot_removed h hi j'
  by_cases hij : i = 0 ∧ j' = j
  · rw [hs, if_pos hij] at hp
    exact absurd hp (by decide)
  · rw [if_neg hij] at hs
    exact ⟨hij, hs⟩

/-- An entry other than the removed one names another inode. -/
theorem idx_ne (hn : NamesFile d j k) (h : FsInv d) {i j' : ℕ} (hi : IsDirectory d i) (hj' : j' < 16)
    (hp : (slot d i j').isPresent = true) (hij : ¬ (i = 0 ∧ j' = j)) :
    (slot d i j').inodeIdx.toNat ≠ k := by
  intro he
  obtain rfl | rfl | hj2 : j' = 0 ∨ j' = 1 ∨ 2 ≤ j' := by omega
  · rw [(h.tree.dot i hi).2] at he
    exact hn.ne_of_dir hi he
  · exact hn.ne_of_dir (h.tree.dotdot i hi).2 he
  · exact hij (h.tree.childUnique i j' 0 j k ⟨hi, hj2, hj', hp, he⟩ (hn.child h))

theorem child_removed (hn : NamesFile d j k) (h : FsInv d) {i j' m : ℕ}
    (hc : Child (removed d j k) i j' m) : Child d i j' m ∧ m ≠ k := by
  have hi := (hn.isDirectory_removed h i).1 hc.dir
  obtain ⟨hij, hs⟩ := hn.present_removed h hi hc.present
  have hp := hc.present
  have hx := hc.idx
  rw [hs] at hp hx
  refine ⟨⟨hi, hc.two_le, hc.lt, hp, hx⟩, ?_⟩
  rw [← hx]
  exact hn.idx_ne h hi hc.lt hp hij

theorem treeInv_removed (hn : NamesFile d j k) (h : FsInv d) : TreeInv (removed d j k) := by
  have hdirs := hn.isDirectory_removed h
  have hj2 := hn.two_le h
  have hlow : ∀ i, IsDirectory d i → ∀ j' < 2, slot (removed d j k) i j' = slot d i j' := by
    intro i hi j' hj'
    rw [hn.slot_removed h hi, if_neg (by omega)]
  have hino : ∀ m < 64, m ≠ k → inodeAt (removed d j k) m = inodeAt d m := by
    intro m hm hmk
    rw [inodeAt_removed h hm, if_neg hmk]
  refine ⟨(hdirs 0).2 h.tree.root, ?_, ?_, ?_, ?_, ?_, ?_, ?_⟩
  · rw [hlow 0 h.tree.root 1 (by omega)]
    exact h.tree.rootUp
  · intro i hi
    rw [hlow i ((hdirs i).1 hi) 0 (by omega)]
    exact h.tree.dot i ((hdirs i).1 hi)
  · intro i hi
    rw [hlow i ((hdirs i).1 hi) 1 (by omega), hdirs]
    exact h.tree.dotdot i ((hdirs i).1 hi)
  · intro i hi j' hj' hp
    have hi := (hdirs i).1 hi
    obtain ⟨hij, hs⟩ := hn.present_removed h hi hp
    rw [hs] at hp ⊢
    obtain ⟨h1, h2, h3⟩ := h.tree.entry i hi j' hj' hp
    rw [hino _ h2 (hn.idx_ne h hi hj' hp hij)]
    exact ⟨h1, h2, h3⟩
  · intro i hi j₁ hj₁ j₂ hj₂ hp₁ hp₂ s hs₁ hs₂
    have hi := (hdirs i).1 hi
    have e₁ := (hn.present_removed h hi hp₁).2
    have e₂ := (hn.present_removed h hi hp₂).2
    rw [e₁] at hp₁ hs₁
    rw [e₂] at hp₂ hs₂
    exact h.tree.names i hi j₁ hj₁ j₂ hj₂ hp₁ hp₂ s hs₁ hs₂
  · intro i j' m hc
    obtain ⟨hc', hmk⟩ := hn.child_removed h hc
    obtain ⟨h0, hdir⟩ := h.tree.child i j' m hc'
    refine ⟨h0, fun hd => ?_⟩
    rw [hino m (h.tree.child_used hc').1 hmk] at hd
    obtain ⟨hm, hup⟩ := hdir hd
    rw [hdirs, hlow m hm 1 (by omega)]
    exact ⟨hm, hup⟩
  · intro i₁ j₁ i₂ j₂ m hc₁ hc₂
    exact h.tree.childUnique i₁ j₁ i₂ j₂ m (hn.child_removed h hc₁).1 (hn.child_removed h hc₂).1

theorem blockInv_removed (h : FsInv d) : BlockInv (removed d j k) := by
  have hino : ∀ i < 64, (inodeAt (removed d j k) i).isUsed = true →
      inodeAt (removed d j k) i = inodeAt d i := by
    intro i hi hu
    rw [inodeAt_removed h hi] at hu ⊢
    split_ifs at hu ⊢ with hik
    · exact absurd hu (by decide)
    · rfl
  constructor
  · intro i hi hu m hm hne
    have he := hino i hi hu
    rw [he] at hu hne ⊢
    exact h.blocks.range i hi hu m hm hne
  · intro i hi hu m hm hne i' hi' hu' m' hm' heq
    have he := hino i hi hu
    have he' := hino i' hi' hu'
    rw [he] at hu hne heq
    rw [he'] at hu' heq
    exact h.blocks.unique i hi hu m hm hne i' hi' hu' m' hm' heq

theorem imageInv_removed (hn : NamesFile d j k) (h : ImageInv d) : ImageInv (removed d j k) := by
  have hge := (h.blocks.dirBlock_range h.tree.root).1
  refine ⟨⟨⟨?_, blockInv_removed h.toFsInv, hn.treeInv_removed h.toFsInv⟩, fun i hi hfree => ?_⟩,
    fun j' hj' hp => ?_⟩
  · have hne : SUPERBLOCK_SECTOR ≠ dirBlock d 0 := by
      simp only [SUPERBLOCK_SECTOR]
      omega
    unfold removed
    rw [Function.update_of_ne hne, putInode_data _ _ (hn.used h.toFsInv).1 (Or.inl (by decide))]
    exact h.superblock
  · rw [inodeAt_removed h.toFsInv hi] at hfree ⊢
    split_ifs at hfree ⊢ with hik
    · decide
    · exact h.clean i hi hfree
  · rw [hn.slot_removed h.toFsInv h.tree.root] at hp ⊢
    split_ifs at hp ⊢ with hij
    · rfl
    · exact h.zeroed j' hj' hp

end NamesFile

section rm

variable {d : Disk} {t : PyStr}

theorem rm_eq (h : FsInv d) (t : PyStr) : HostTool.rm d t = rmFile formatSuperblock d t := by
  unfold HostTool.rm
  rw [readSuperblock_of_inv h]

theorem rm_of_none (h : FsInv d) (ht : findTarget d t = none) :
    ∃ e, HostTool.rm d t = (.error e, d) := by
  rw [rm_eq h]
  unfold rmFile
  rw [listDir_eq h]
  dsimp only
  rw [findEntry_eq, ht]
  exact ⟨_, rfl⟩

theorem namesFile_of_target {j : ℕ} (hj : findTarget d t = some j)
    (hfile : (inodeAt d (slot d 0 j).inodeIdx.toNat).isDir = false) :
    NamesFile d j (slot d 0 j).inodeIdx.toNat :=
  ⟨(findTarget_some hj).1, (findTarget_some hj).2.1, rfl, hfile⟩

theorem rmFile_of_some (h : FsInv d) {j : ℕ} (hj : findTarget d t = some j) :
    rmFile formatSuperblock d t =
      if (inodeAt d (slot d 0 j).inodeIdx.toNat).isDir then (.error (.valueError
        ("'" ++ t.toString ++ "' is a directory (use mkdir/rmdir)")), d)
      else clearFile formatSuperblock d (rootEntry d j) := by
  obtain ⟨hj16, hp, -⟩ := findTarget_some hj
  have hlt := (h.tree.entry 0 h.tree.root j hj16 hp).2.1
  have hread : readInode formatSuperblock d (rootEntry d j).inodeIdx =
      .ok (inodeAt d (slot d 0 j).inodeIdx.toNat) := readInode_of_lt hlt
  unfold rmFile
  rw [listDir_eq h]
  dsimp only
  rw [findEntry_eq, hj]
  dsimp only [Option.map_some]
  rw [hread]

theorem rm_of_dir (h : FsInv d) {j : ℕ} (hj : findTarget d t = some j)
    (hdir : (inodeAt d (slot d 0 j).inodeIdx.toNat).isDir = true) :
    ∃ e, HostTool.rm d t = (.error e, d) := by
  rw [rm_eq h, rmFile_of_some h hj, if_pos hdir]
  exact ⟨_, rfl⟩

theorem rm_of_file (h : FsInv d) {j : ℕ} (hj : findTarget d t = some j)
    (hfile : (inodeAt d (slot d 0 j).inodeIdx.toNat).isDir = false) :
    HostTool.rm d t = (.ok (), removed d j (slot d 0 j).inodeIdx.toNat) := by
  have hn := namesFile_of_target hj hfile
  have hk := (hn.used h).1
  have hk0 := hn.ne_of_dir h.tree.root
  have hino : inodeAt (putInode d (slot d 0 j).inodeIdx.toNat (Inode.fresh 0)) 0 = inodeAt d 0 :=
    inodeAt_putInode_ne _ _ hk0
  rw [rm_eq h, rmFile_of_some h hj, if_neg (by simp [hfile])]
  unfold clearFile
  dsimp only
  rw [writeInode_eq_put, readInode_of_lt (by omega)]
  dsimp only
  rw [show (rootEntry d j).inodeIdx = (slot d 0 j).inodeIdx.toNat from rfl, hino, blit_zero,
    show ((inodeAt d 0).block 0).toNat = dirBlock d 0 from rfl,
    putInode_data _ _ hk (Or.inr (h.blocks.dirBlock_range h.tree.root).1)]
  rfl

/-- `rm` keeps the invariant, also when it fails. -/
theorem ImageInv.rm (h : ImageInv d) (t : PyStr) : ImageInv (HostTool.rm d t).2 := by
  cases ht : findTarget d t with
  | none =>
      obtain ⟨e, he⟩ := rm_of_none h.toFsInv ht
      rw [he]
      exact h
  | some j =>
      cases hd : (inodeAt d (slot d 0 j).inodeIdx.toNat).isDir with
      | true =>
          obtain ⟨e, he⟩ := rm_of_dir h.toFsInv ht hd
          rw [he]
          exact h
      | false =>
          rw [rm_of_file h.toFsInv ht hd]
          exact (namesFile_of_target ht hd).imageInv_removed h

end rm

/-! ### Reachable images -/

/-- The images that formats, calls of the kernel and commands of the tool lead to.  The kernel
creates in directories and writes to files (`vfs_write` turns directories away), at most thirty
blocks at a time; the tool puts and removes files, under names without NUL, as command lines and
file systems have them. -/
inductive Reachable : Disk → Prop
  | format (d : Disk) : Reachable (formatDisk ⟨d, []⟩).disk
  | create {d : Disk} (p : UInt32) (name : CStr) : Reachable d → IsDirectory d p.toNat →
      Reachable (simplefsCreate ⟨d, []⟩ p name).2.disk
  | mkdir {d : Disk} (p : UInt32) (name : CStr) : Reachable d → IsDirectory d p.toNat →
      Reachable (simplefsMkdir ⟨d, []⟩ (getSuperblock (d SUPERBLOCK_SECTOR)) p name).2.disk
  | write {d : Disk} (p : UInt32) (name : CStr) (buf : ℕ → UInt8) (size : UInt32) :
      Reachable d → IsDirectory d p.toNat → size.toNat ≤ DIRECT_BLOCKS * 512 →
      (simplefsLookup ⟨d, []⟩ p name = -1 ∨
        IsFile d (cUInt (simplefsLookup ⟨d, []⟩ p name)).toNat) →
      Reachable (simplefsWrite ⟨d, []⟩ (getSuperblock (d SUPERBLOCK_SECTOR)) p name buf
        size).2.disk
  | put {d : Disk} (f : HostFile) (t : PyStr) : Reachable d → 0 ∉ t → RegularTarget d t →
      Reachable (HostTool.put d f t).2
  | rm {d : Disk} (t : PyStr) : Reachable d → Reachable (HostTool.rm d t).2

/-- Every reachable image has the invariant. -/
theorem Reachable.imageInv {d : Disk} (h : Reachable d) : ImageInv d := by
  induction h with
  | format d => exact imageInv_format _
  | create p name _ hp ih =>
      exact safeRun_imageInv (simplefsCreate_safe ih.toFsInv (Or.inl hp) name) ih
  | mkdir p name _ hp ih =>
      refine safeRun_imageInv (simplefsMkdir_safe ih.toFsInv ?_ (Or.inl hp) name) ih
      rw [ih.superblock]
      rfl
  | write p name buf size _ hp hsize hfile ih =>
      refine safeRun_imageInv (simplefsWrite_safe ih.toFsInv ?_ p name buf size hfile) ih
      rw [ih.superblock]
      rfl
  | put f t _ h0 hreg ih => exact ih.put f h0 hreg
  | rm t _ ih => exact ih.rm t

/-! ### What the kernel sees afterwards -/

/-- Lookups and reads of the name `n` in directory `p` give the same results. -/
def SameName (d d' : Disk) (p : UInt32) (n : CStr) : Prop :=
  simplefsLookup ⟨d', []⟩ p n = simplefsLookup ⟨d, []⟩ p n ∧
    ∀ size, simplefsRead ⟨d', []⟩ p n size = simplefsRead ⟨d, []⟩ p n size

theorem readLoop_congr {io io' : Io} {ino : Inode}
    (h : ∀ m < 30, io'.disk (ino.block m).toNat = io.disk (ino.block m).toNat) (n : ℕ) :
    ∀ (i : ℕ) (left : UInt32), readLoop io' ino n i left = readLoop io ino n i left := by
  induction n with
  | zero =>
      intro i left
      rfl
  | succ n ih =>
      intro i left
      unfold readLoop
      by_cases hi : DIRECT_BLOCKS ≤ i
      · rw [if_pos hi, if_pos hi]
      · rw [if_neg hi, if_neg hi]
        dsimp only
        rw [ih, show ataReadSector io' (ino.block i).toNat = ataReadSector io (ino.block i).toNat
          from h i (Nat.lt_of_not_le hi)]

section sameName

variable {d d' : Disk} {p : UInt32} {n : CStr}

/-- A name is the same when its entry is, the inode it names, and the data if that is a file. -/
theorem sameName_of_entry (h : FsInv d) (h' : FsInv d') (h0 : d' 0 = d 0)
    (hp : IsDirectory d p.toNat) (hp' : IsDirectory d' p.toNat)
    (habs : Absent d p.toNat n → Absent d' p.toNat n)
    (hslot : ∀ j < 16, (slot d p.toNat j).isPresent = true → (slot d p.toNat j).HasName n →
      slot d' p.toNat j = slot d p.toNat j)
    (hino : ∀ j < 16, (slot d p.toNat j).isPresent = true → (slot d p.toNat j).HasName n →
      inodeAt d' (slot d p.toNat j).inodeIdx.toNat = inodeAt d (slot d p.toNat j).inodeIdx.toNat)
    (hdata : ∀ j < 16, (slot d p.toNat j).isPresent = true → (slot d p.toNat j).HasName n →
      (inodeAt d (slot d p.toNat j).inodeIdx.toNat).isDir = false →
        SameNode d d' (slot d p.toNat j).inodeIdx.toNat) : SameName d d' p n := by
  obtain ⟨hl, ha⟩ | ⟨j, hj, hpres, hname, hl, -⟩ := @simplefsLookup_cases ⟨d, []⟩ h.tree p hp n
  · have hl' := (@simplefsLookup_eq_neg_one_iff ⟨d', []⟩ h'.tree p hp' n).2 (habs ha)
    refine ⟨hl'.trans hl.symm, fun size => ?_⟩
    rw [simplefsRead_eq, simplefsRead_eq, if_pos hl, if_pos hl']
  · have hs : slot d' p.toNat j = slot d p.toNat j := hslot j hj hpres hname
    have hl' : simplefsLookup ⟨d', []⟩ p n = cInt (slot d p.toNat j).inodeIdx := by
      rw [← hs]
      refine simplefsLookup_of_hasName h'.tree hp' hj ?_ ?_
      · rw [hs]
        exact hpres
      · rw [hs]
        exact hname
    have hi : inodeAt d' (slot d p.toNat j).inodeIdx.toNat =
        inodeAt d (slot d p.toNat j).inodeIdx.toNat := hino j hj hpres hname
    have hl : simplefsLookup ⟨d, []⟩ p n = cInt (slot d p.toNat j).inodeIdx := hl
    refine ⟨hl'.trans hl.symm, fun size => ?_⟩
    rw [simplefsRead_eq, simplefsRead_eq, hl, hl', cUInt_cInt, hi]
    split_ifs with h1 h2
    · rfl
    · rfl
    · have hsame := hdata j hj hpres hname (by simpa using h2)
      have hread := @readLoop_congr ⟨d, []⟩ ⟨d', []⟩ (inodeAt d (slot d p.toNat j).inodeIdx.toNat)
        (fun m hm => by
          by_cases hb : (inodeAt d (slot d p.toNat j).inodeIdx.toNat).block m = 0
          · rw [hb]
            exact h0
          · exact hsame.data m hm hb)
      dsimp only
      rw [hread]

/-- Storing a file under slot `j` of the root leaves all other names alone. -/
theorem Stored.sameName {j k : ℕ} {bs : List ℕ} {data : List UInt8} {s : CStr}
    (hs : Stored d d' k bs data) (h : FsInv d) (hn : NamesFile d j k)
    (hname : (slot d 0 j).HasName s) (ha : Assignable d k bs) (hlen : bs.length ≤ 30)
    (hp : IsDirectory d p.toNat) (hother : ¬ (p.toNat = 0 ∧ n = s)) : SameName d d' p n := by
  have hk := (hn.used h).1
  have ht := hs.sameTree h.blocks hk (fun _ => hn.file) ha
  have hne : ∀ j' < 16, (slot d p.toNat j').isPresent = true → (slot d p.toNat j').HasName n →
      (slot d p.toNat j').inodeIdx.toNat ≠ k := by
    intro j' hj' hpres hname'
    refine hn.idx_ne h hp hj' hpres ?_
    rintro ⟨hp0, rfl⟩
    rw [hp0] at hname'
    exact hother ⟨hp0, hname'.unique hname⟩
  have hsame : ∀ j' < 16, (slot d p.toNat j').isPresent = true → (slot d p.toNat j').HasName n →
      SameNode d d' (slot d p.toNat j').inodeIdx.toNat := by
    intro j' hj' hpres hname'
    obtain ⟨-, hlt, hused⟩ := h.tree.entry _ hp j' hj' hpres
    exact hs.sameNode h.blocks hk ha hlt hused (hne j' hj' hpres hname')
  refine sameName_of_entry h (hs.fsInv h hk (fun _ => hn.file) ha hlen) ?_ hp
    ((ht.dirs _).2 hp) (absent_congr (ht.slots _ hp)) (fun j' _ _ _ => ht.slots _ hp j')
    (fun j' hj' h1 h2 => (hsame j' hj' h1 h2).inode) (fun j' hj' h1 h2 _ => hsame j' hj' h1 h2)
  refine hs.frame 0 (Or.inl (by omega)) fun hmem => ?_
  have := (ha.range 0 hmem).1
  omega

/-- Removing the file in slot `j` of the root leaves all other names alone. -/
theorem NamesFile.sameName_removed {j k : ℕ} {s : CStr} (hn : NamesFile d j k) (h : ImageInv d)
    (hname : (slot d 0 j).HasName s) (hp : IsDirectory d p.toNat)
    (hother : ¬ (p.toNat = 0 ∧ n = s)) : SameName d (removed d j k) p n := by
  have hk := (hn.used h.toFsInv).1
  have hge := (h.blocks.dirBlock_range h.tree.root).1
  have hij : ∀ j', (slot d p.toNat j').HasName n → ¬ (p.toNat = 0 ∧ j' = j) := by
    rintro j' hname' ⟨hp0, rfl⟩
    rw [hp0] at hname'
    exact hother ⟨hp0, hname'.unique hname⟩
  have hino : ∀ j' < 16, (slot d p.toNat j').isPresent = true → (slot d p.toNat j').HasName n →
      inodeAt (removed d j k) (slot d p.toNat j').inodeIdx.toNat =
        inodeAt d (slot d p.toNat j').inodeIdx.toNat := by
    intro j' hj' hpres hname'
    rw [NamesFile.inodeAt_removed h.toFsInv (h.tree.entry _ hp j' hj' hpres).2.1,
      if_neg (hn.idx_ne h.toFsInv hp hj' hpres (hij j' hname'))]
  refine sameName_of_entry h.toFsInv (hn.imageInv_removed h).toFsInv ?_ hp
    ((hn.isDirectory_removed h.toFsInv _).2 hp) ?_ ?_ hino ?_
  · unfold removed
    rw [Function.update_of_ne (by omega), putInode_data _ _ hk (Or.inl (by omega))]
  · intro ha j' hj' hpres hname'
    have hs := (hn.present_removed h.toFsInv hp hpres).2
    rw [hs] at hpres hname'
    exact ha j' hj' hpres hname'
  · intro j' hj' hpres hname'
    rw [hn.slot_removed h.toFsInv hp, if_neg (hij j' hname')]
  · intro j' hj' hpres hname' hfile
    obtain ⟨-, hlt, hused⟩ := h.tree.entry _ hp j' hj' hpres
    refine ⟨hino j' hj' hpres hname', fun m hm hne => ?_⟩
    have hb := h.blocks.dirBlock_ne_file hlt hm hused hfile hne h.tree.root
    unfold removed
    rw [Function.update_of_ne hb.symm,
      putInode_data _ _ hk (Or.inr (h.blocks.range _ hlt hused m hm hne).1)]

end sameName

/-- The name as the tool lists it, when it is ASCII. -/
def spelling (s : CStr) : PyStr := s.bytes.map UInt8.toNat

theorem decodeName_eq_spelling {s s' : CStr} (hasc : IsAscii (spelling s)) :
    decodeName s'.bytes = spelling s ↔ s' = s := by
  have hone : ∀ b : UInt8, b.toNat < 128 → (if b.toNat < 128 then b.toNat else 0xFFFD) = b.toNat :=
    fun b hb => if_pos hb
  constructor
  · intro he
    -- a byte that is not ASCII would have been replaced by a code point above 127
    have hlow : ∀ b ∈ s'.bytes, b.toNat < 128 := by
      intro b hb
      by_contra hge
      have hmem : (0xFFFD : ℕ) ∈ decodeName s'.bytes := List.mem_map.2 ⟨b, hb, if_neg hge⟩
      rw [he] at hmem
      exact absurd (hasc _ hmem) (by omega)
    have hmap : s'.bytes.map UInt8.toNat = s.bytes.map UInt8.toNat := by
      rw [← show decodeName s'.bytes = s'.bytes.map UInt8.toNat from
        List.map_congr_left fun b hb => hone b (hlow b hb)]
      exact he
    have hinj : Function.Injective UInt8.toNat := fun a b h => UInt8.toNat.inj h
    exact CStr.ext (List.map_injective_iff.2 hinj hmap)
  · rintro rfl
    exact List.map_congr_left fun b hb => hone b (hasc _ (List.mem_map_of_mem hb))

/-- The tool finds a file under its ASCII name. -/
theorem findTarget_spelling {d : Disk} {j : ℕ} {s : CStr} (h : FsInv d) (hj : j < 16)
    (hp : (slot d 0 j).isPresent = true) (hname : (slot d 0 j).HasName s)
    (hasc : IsAscii (spelling s)) : findTarget d (spelling s) = some j := by
  cases ht : findTarget d (spelling s) with
  | none =>
      refine absurd ?_ (findTarget_none ht hj hp)
      rw [slotName_of_hasName hname, decodeName_eq_spelling hasc]
  | some j' =>
      obtain ⟨hj', hp', hslot⟩ := findTarget_some ht
      obtain ⟨⟨s', hs'⟩, -⟩ := h.tree.entry 0 h.tree.root j' hj' hp'
      rw [slotName_of_hasName hs', decodeName_eq_spelling hasc] at hslot
      subst hslot
      rw [h.tree.names 0 h.tree.root j' hj' j hj hp' hp s' hs' hname]

/-- All other names of the tree are as before. -/
def OthersSame (d d' : Disk) (s : CStr) : Prop :=
  ∀ (p : UInt32) (n : CStr), IsDirectory d p.toNat → ¬ (p.toNat = 0 ∧ n = s) → SameName d d' p n

/-- What the kernel sees after the file `s` of the root has been overwritten with `b`. -/
structure Overwritten (d d' : Disk) (s : CStr) (b : List UInt8) : Prop where
  blocks : BlockInv d'
  read : ∀ size : UInt32, simplefsRead ⟨d', []⟩ 0 s size =
    some (((min size.toNat b.length : ℕ) : ℤ), b.take size.toNat)
  others : OthersSame d d' s

/-- What the kernel sees after the file `s` of the root has been removed. -/
structure Removed (d d' : Disk) (s : CStr) : Prop where
  blocks : BlockInv d'
  lookup : simplefsLookup ⟨d', []⟩ 0 s = -1
  others : OthersSame d d' s

section afterwards

variable {d : Disk} {j k : ℕ} {s : CStr} {b : List UInt8}

theorem Stored.overwritten {d' : Disk} {bs : List ℕ} (hs : Stored d d' k bs b) (h : FsInv d)
    (hn : NamesFile d j k) (hname : (slot d 0 j).HasName s) (ha : Assignable d k bs)
    (hlen : bs.length = blockCount b) (hsize : b.length ≤ 30 * 512) : Overwritten d d' s b := by
  have hlen30 : bs.length ≤ 30 := by
    rw [hlen]
    unfold blockCount
    omega
  have hk := (hn.used h).1
  have h' := hs.fsInv h hk (fun _ => hn.file) ha hlen30
  have hslot : slot d' 0 j = slot d 0 j :=
    (hs.sameTree h.blocks hk (fun _ => hn.file) ha).slots 0 h.tree.root j
  have hn' : NamesFile d' j k := by
    refine ⟨hn.lt, ?_, ?_, hs.isDir⟩
    · rw [hslot]
      exact hn.present
    · rw [hslot]
      exact hn.idx
  have hlook := hn'.lookup h' (by rw [hslot]; exact hname)
  refine ⟨hs.blockInv h.blocks hk ha hlen30, fun size => ?_, fun p n hp hother =>
    hs.sameName h hn hname ha hlen30 hp hother⟩
  exact simplefsRead_file hlook ⟨hk, hs.isUsed, hs.isDir⟩ (hs.nodeRep hk ha hlen hsize).2 size

theorem NamesFile.removed_sound (hn : NamesFile d j k) (h : ImageInv d)
    (hname : (slot d 0 j).HasName s) : Removed d (removed d j k) s := by
  have h' := hn.imageInv_removed h
  refine ⟨h'.blocks, ?_, fun p n hp hother => hn.sameName_removed h hname hp hother⟩
  refine (@simplefsLookup_eq_neg_one_iff ⟨removed d j k, []⟩ h'.tree 0 h'.tree.root s).2 ?_
  intro j' hj' hp hname'
  -- the name was in one slot only, and that slot is empty now
  obtain ⟨hne, hs⟩ := hn.present_removed h.toFsInv h.tree.root hp
  have hp : (slot (removed d j k) 0 j').isPresent = true := hp
  have hname' : (slot (removed d j k) 0 j').HasName s := hname'
  rw [hs] at hp hname'
  exact hne ⟨rfl, h.tree.names 0 h.tree.root j' hj' j hn.lt hp hn.present s hname' hname⟩

/-- **Soundness of overwriting and removing.**  On a reachable image, let the root have a file
under the name `s`.  The tool finds it under its ASCII spelling.  Under every string that the
tool's listing has for it, `put` replaces its content and `rm` takes it away, and the kernel sees
every other name of every directory as before. -/
theorem reachable_put_rm (d : Disk) (h : Reachable d) (s : CStr) (j k : ℕ)
    (hn : NamesFile d j k) (hname : (slot d 0 j).HasName s) :
    (IsAscii (spelling s) → findTarget d (spelling s) = some j) ∧
    ∀ t, findTarget d t = some j →
      (∀ f b, f.content = some b → b.length ≤ 30 * 512 → (put d f t).1 = .ok () →
        Overwritten d (put d f t).2 s b) ∧
      (HostTool.rm d t).1 = .ok () ∧ Removed d (HostTool.rm d t).2 s := by
  have hi := h.imageInv
  refine ⟨findTarget_spelling hi.toFsInv hn.lt hn.present hname, fun t ht => ⟨?_, ?_⟩⟩
  · intro f b hf hsize hok
    have ha : Accepted f t b := by
      by_contra hna
      obtain ⟨e, he⟩ := put_of_reject (f := f) (t := t) hi.toFsInv fun b' ha' => hna (by
        have := ha'.content
        rw [hf, Option.some_inj] at this
        rw [this]
        exact ha')
      rw [he] at hok
      cases hok
    have hlt := (hn.used hi.toFsInv).1
    have hkept := assignable_kept hi.blocks hlt (hn.used hi.toFsInv).2 (blockCount b)
    rw [put_of_found hi.toFsInv ha ht, hn.idx]
    exact (storeFile_spec hlt hkept b).overwritten hi.toFsInv hn hname hkept
      (length_keptBlocks d k ha.count) hsize
  · have hfile : (inodeAt d (slot d 0 j).inodeIdx.toNat).isDir = false := by
      rw [hn.idx]
      exact hn.file
    rw [rm_of_file hi.toFsInv ht hfile, hn.idx]
    exact ⟨rfl, hn.removed_sound hi hname⟩

end afterwards

/-- A new file is found where it was entered. -/
theorem put_new_namesFile {d : Disk} {f : HostFile} {t : PyStr} {data : List UInt8} (h : ImageInv d)
    {j k : ℕ} (ha : Accepted f t data) (ht : findTarget d t = none) (hk : firstFree d = some k)
    (hj : firstEmpty d 0 = some j) (hasc : IsAscii t) (h0 : 0 ∉ t) (hne : t ≠ []) :
    NamesFile (put d f t).2 j k ∧ (slot (put d f t).2 0 j).HasName (nameOf t hasc h0) := by
  obtain ⟨hk64, -, -⟩ := firstFree_eq_some_iff.1 hk
  obtain ⟨hj16, -, -⟩ := firstEmpty_eq_some_iff.1 hj
  have hstr := strlen_nameOf hasc h0
  have hpos : 0 < t.length := List.length_pos_iff.2 hne
  have hnew := newFile_imageInv h hk ha.count
  have hname28 : (nameOf t hasc h0).strlen < 28 := by
    rw [hstr]
    exact ha.name
  rw [put_of_new h.toFsInv ha ht hk, addRootEntry_newFile h hk hj hasc h0 ha.count]
  have hslot := slot_linked (k := UInt32.ofNat k) (s := nameOf t hasc h0) hnew.blocks hnew.tree.root
    hj16 hnew.tree.root j
  rw [if_pos ⟨rfl, rfl⟩] at hslot
  have hname := hasName_mkEntry (slot (newFile d k data) 0 j).filename (UInt32.ofNat k) hname28
  refine ⟨⟨hj16, ?_, ?_, ?_⟩, ?_⟩
  · rw [hslot, hname.isPresent_iff]
    omega
  · rw [hslot]
    exact toNat_ofNat_lt hk64
  · rw [inodeAt_linked hnew.blocks hnew.tree.root hk64]
    exact (newFile_stored hk64 data).isDir
  · rw [hslot]
    exact hname

theorem firstFree_fresh : firstFree freshImage = some 1 := by
  refine firstFree_eq_some_iff.2 ⟨by omega, ?_, fun i hi => ?_⟩
  · rw [freshImage, inodeAt_formatDisk _ (by omega)]
    decide
  · rw [freshImage, inodeAt_formatDisk _ (by omega), if_pos (by omega)]
    decide

theorem firstEmpty_fresh : firstEmpty freshImage 0 = some 2 := by
  have htree := (formatDisk_inv ⟨Vfs.blankDisk, []⟩).tree
  refine firstEmpty_eq_some_iff.2 ⟨by omega, ?_, fun j hj => ?_⟩
  · rw [freshImage, slot_formatDisk, isPresent_newTable _ _ (by omega)]
  · obtain rfl | rfl : j = 0 ∨ j = 1 := by omega
    · exact (htree.dot 0 htree.root).1.isPresent_iff.2 (by decide)
    · exact (htree.dotdot 0 htree.root).1.isPresent_iff.2 (by decide)

/-- The empty file `"a"` on a fresh image. -/
def imageWithA : Disk := (put freshImage ⟨[97], some []⟩ [97]).2

def nameA : CStr := ⟨[97], by decide⟩

theorem imageWithA_reachable : Reachable imageWithA := by
  refine @Reachable.put freshImage _ _ (Reachable.format _) (by decide) fun j hj => ?_
  rw [findTarget_fresh_none (by decide) (by decide)] at hj
  cases hj

theorem imageWithA_names : NamesFile imageWithA 2 1 ∧ (slot imageWithA 0 2).HasName nameA :=
  put_new_namesFile (imageInv_format _) ⟨rfl, by decide, by decide⟩
    (findTarget_fresh_none (by decide) (by decide)) firstFree_fresh firstEmpty_fresh
    (by unfold IsAscii; decide) (by decide) (by decide)

theorem imageWithA_put_rm : findTarget imageWithA [97] = some 2 ∧
    Overwritten imageWithA (put imageWithA ⟨[98], some [1, 2, 3]⟩ [97]).2 nameA [1, 2, 3] ∧
    Removed imageWithA (HostTool.rm imageWithA [97]).2 nameA := by
  obtain ⟨hn, hname⟩ := imageWithA_names
  obtain ⟨hfind, hall⟩ := reachable_put_rm imageWithA imageWithA_reachable nameA 2 1 hn hname
  have hfound : findTarget imageWithA [97] = some 2 := hfind (by unfold IsAscii; decide)
  obtain ⟨hput, -, hrm⟩ := hall [97] hfound
  refine ⟨hfound, hput _ _ rfl (by decide) ?_, hrm⟩
  rw [put_of_found imageWithA_reachable.imageInv.toFsInv ⟨rfl, by decide, by decide⟩ hfound]

end NosmeriOs.HostTool
