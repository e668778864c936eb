import NosmeriOs.HostToolRun

/-! # Kernel and host tool write the same image

The kernel creates a file and fills it block by block, storing the inode after every block; the
tool looks for all blocks at once, writes the data and then the inode.

* **Images.**  An image is its inodes and its sectors outside of the inode table (`disk_ext`), so
  the two results are compared part by part and not write by write.
* **Blocks.**  The kernel's next block is the head of the tool's list of free blocks, and taking it
  leaves the tail (`freeBlocks_of_first`); over the loop the kernel takes the blocks the tool has
  chosen (`writeLoop_blocks`).
* **Result.**  `kernel_put_agree`. -/

namespace NosmeriOs.HostTool

open Bytes SimpleFs

/-! ### Images -/

theorem field_getInode (s : Sector) (i : ℕ) {q : ℕ} (hq : q < 32) :
    (getInode s i).field q = s.word (128 * i + 4 * q) := by
  obtain rfl | rfl | ⟨m, rfl⟩ : q = 0 ∨ q = 1 ∨ ∃ m, q = m + 2 := by
    obtain _ | _ | m := q
    · exact Or.inl rfl
    · exact Or.inr (Or.inl rfl)
    · exact Or.inr (Or.inr ⟨m, rfl⟩)
  · rfl
  · rfl
  · have hm : m < 30 := by omega
    unfold Inode.field
    dsimp only
    rw [Inode.block_lt _ hm]
    unfold getInode
    dsimp only
    congr 1
    omega

/-- The bytes of an inode in its sector. -/
theorem byteAt_getInode (s : Sector) (i : ℕ) {q : ℕ} (hq : q < 128) :
    (getInode s i).byteAt q = s.get (128 * i + q) := by
  unfold Inode.byteAt
  rw [field_getInode s i (by omega), Buf.word, leByte_ofLe _ (by omega)]
  congr 1
  omega

/-- An image is its inodes and the sectors outside of the inode table. -/
theorem disk_ext {d d' : Disk} (hino : ∀ i < 64, inodeAt d i = inodeAt d' i)
    (hsec : ∀ b, b < 1 ∨ 17 ≤ b → d b = d' b) : d = d' := by
  funext b
  by_cases hb : b < 1 ∨ 17 ≤ b
  · exact hsec b hb
  · apply Buf.ext
    intro q hq
    have hi := hino ((b - 1) * 4 + q / 128) (by omega)
    rw [← inodeAt_pos d (by omega) (by omega), ← inodeAt_pos d' (by omega) (by omega)] at hi
    have hbyte := congrArg (Inode.byteAt · (q % 128)) hi
    rw [byteAt_getInode _ _ (by omega), byteAt_getInode _ _ (by omega),
      show 128 * (q / 128) + q % 128 = q by omega] at hbyte
    exact hbyte

/-! ### The two searches for blocks -/

theorem owned_iff_taken {d : Disk} {b : UInt32} : Owned d b ↔ Taken d b.toNat := by
  constructor
  · rintro ⟨i, hi, hu, j, hj, rfl⟩
    exact ⟨i, hi, hu, j, hj, rfl⟩
  · rintro ⟨i, hi, hu, j, hj, he⟩
    exact ⟨i, hi, hu, j, hj, UInt32.toNat.inj he⟩

/-- The bounded search passes over used candidates only. -/
theorem findFreeFrom_passes (used : UInt32 → Bool) : ∀ (fuel : ℕ) (c : UInt32),
    ∃ k ≤ fuel, findFreeFrom used fuel c = c + UInt32.ofNat k ∧
      ∀ m < k, used (c + UInt32.ofNat m) = true
  | 0, c => ⟨0, by omega, by simp [findFreeFrom], fun m hm => absurd hm (by omega)⟩
  | fuel + 1, c => by
      unfold findFreeFrom
      cases hc : used c with
      | false => exact ⟨0, by omega, by simp, fun m hm => absurd hm (by omega)⟩
      | true =>
          have e : ∀ m : ℕ, c + 1 + UInt32.ofNat m = c + UInt32.ofNat (m + 1) := by
            intro m
            rw [UInt32.ofNat_add, UInt32.add_assoc, UInt32.add_comm 1 (UInt32.ofNat m)]
            rfl
          obtain ⟨k, hk, hr, hall⟩ := findFreeFrom_passes used fuel (c + 1)
          refine ⟨k + 1, by omega, by rw [if_pos rfl, hr, e], fun m hm => ?_⟩
          cases m with
          | zero => simpa using hc
          | succ m =>
              rw [← e]
              exact hall m (by omega)

/-- Block `b` is the first free one. -/
structure FirstBlock (d : Disk) (b : ℕ) : Prop where
  ge : 17 ≤ b
  lt : b < 32768
  free : ¬ Taken d b
  first : ∀ c, 17 ≤ c → c < b → Taken d c

theorem findFreeDataBlock_first (io : Io) {sb : Superblock} (hsb : sb.dataBlockStart = 17) :
    FirstBlock io.disk (findFreeDataBlock io sb).toNat := by
  obtain ⟨hge, hlt⟩ := findFreeDataBlock_range io hsb
  refine ⟨hge, hlt, fun h => not_owned_findFreeDataBlock io sb (owned_iff_taken.2 h), ?_⟩
  intro c hc hcb
  obtain ⟨k, hk, hr, hall⟩ := findFreeFrom_passes (isBlockUsed io) 1921 sb.dataBlockStart
  have hadd : ∀ m ≤ 1921, ((17 : UInt32) + UInt32.ofNat m).toNat = 17 + m := by
    intro m hm
    have h17 : (17 : UInt32).toNat = 17 := rfl
    rw [UInt32.toNat_add, UInt32.toNat_ofNat', h17]
    omega
  have hb : (findFreeDataBlock io sb).toNat = 17 + k := by
    rw [← hadd k hk, ← hsb, ← hr]
    rfl
  have hu := hall (c - 17) (by omega)
  rw [isBlockUsed_iff, owned_iff_taken, hsb, hadd _ (by omega), Nat.add_sub_cancel' hc] at hu
  exact hu

/-- Taking the first free block leaves the rest of the list. -/
theorem freeBlocks_of_first {d d' : Disk} {b : ℕ} (hb : FirstBlock d b)
    (htaken : ∀ c, 17 ≤ c → (Taken d' c ↔ Taken d c ∨ c = b)) :
    freeBlocks d = b :: freeBlocks d' := by
  obtain ⟨m, rfl⟩ := Nat.exists_eq_add_of_le hb.ge
  obtain ⟨r, hr⟩ := Nat.exists_eq_add_of_lt hb.lt
  have hsplit : List.range' 17 32751 = List.range' 17 m ++ (17 + m) :: List.range' (17 + m + 1) r := by
    rw [← List.range'_succ, show 17 + m = 17 + 1 * m by omega, List.range'_append]
    congr 1
    omega
  have hnone : ∀ e : Disk, (∀ c, 17 ≤ c → c < 17 + m → Taken e c) →
      ((List.range' 17 m).filter fun c => c ∉ getAllUsedBlocks formatSuperblock e) = [] := by
    intro e he
    rw [List.filter_eq_nil_iff]
    intro c hc
    rw [List.mem_range'_1] at hc
    rw [decide_eq_true_eq, not_not, mem_getAllUsedBlocks]
    exact ⟨by omega, he c hc.1 hc.2⟩
  have hrest : ((List.range' (17 + m + 1) r).filter fun c =>
      c ∉ getAllUsedBlocks formatSuperblock d) =
      (List.range' (17 + m + 1) r).filter fun c => c ∉ getAllUsedBlocks formatSuperblock d' := by
    refine List.filter_congr fun c hc => ?_
    rw [List.mem_range'_1] at hc
    rw [decide_eq_decide, mem_getAllUsedBlocks, mem_getAllUsedBlocks, htaken c (by omega)]
    have hne : c ≠ 17 + m := by omega
    simp [hne]
  have hin : 17 + m ∉ getAllUsedBlocks formatSuperblock d := by
    rw [mem_getAllUsedBlocks]
    exact fun h => hb.free h.2
  have hout : 17 + m ∈ getAllUsedBlocks formatSuperblock d' := by
    rw [mem_getAllUsedBlocks, htaken _ (by omega)]
    exact ⟨by omega, Or.inr rfl⟩
  unfold freeBlocks
  rw [hsplit, List.filter_append, List.filter_append, hnone d hb.first,
    hnone d' fun c h1 h2 => (htaken c h1).2 (Or.inl (hb.first c h1 h2)), List.nil_append,
    List.nil_append, List.filter_cons_of_pos (by simpa using hin),
    List.filter_cons_of_neg (by simpa using hout), hrest]

theorem taken_congr {d d' : Disk} (h : ∀ i < 64, inodeAt d' i = inodeAt d i) {b : ℕ} :
    Taken d' b ↔ Taken d b := by
  constructor
  · rintro ⟨i, hi, hu, hj⟩
    rw [h i hi] at hu hj
    exact ⟨i, hi, hu, hj⟩
  · rintro ⟨i, hi, hu, hj⟩
    rw [← h i hi] at hu hj
    exact ⟨i, hi, hu, hj⟩

/-- Giving a block to an empty place of an inode in use takes that block and no other. -/
theorem taken_setBlock {d : Disk} {k i : ℕ} {b : UInt32} (hk : k < 64) (hi : i < 30)
    (hu : (inodeAt d k).isUsed = true) (h0 : (inodeAt d k).block i = 0) {c : ℕ} (hc : 17 ≤ c) :
    Taken (putInode d k ((inodeAt d k).setBlock i b)) c ↔ Taken d c ∨ c = b.toNat := by
  constructor
  · rintro ⟨i', hi', hu', j, hj, he⟩
    rw [inodeAt_putInode] at hu' he
    split_ifs at hu' he with hik
    · subst hik
      rw [Inode.block_setBlock _ _ _ hi] at he
      split_ifs at he with hji
      · exact Or.inr he.symm
      · exact Or.inl ⟨i', hi', hu, j, hj, he⟩
    · exact Or.inl ⟨i', hi', hu', j, hj, he⟩
  · rintro (⟨i', hi', hu', j, hj, he⟩ | rfl)
    · refine ⟨i', hi', ?_, j, hj, ?_⟩
      · rw [inodeAt_putInode]
        split_ifs with hik
        · exact hu
        · exact hu'
      · rw [inodeAt_putInode]
        split_ifs with hik
        · subst hik
          -- the place that was empty does not hold a block of the data area
          rw [Inode.block_setBlock _ _ _ hi, if_neg]
          · exact he
          · rintro rfl
            rw [h0] at he
            have hz : (0 : UInt32).toNat = 0 := rfl
            omega
        · exact he
    · refine ⟨k, hk, ?_, i, hi, ?_⟩
      · rw [inodeAt_putInode_same]
        exact hu
      · rw [inodeAt_putInode_same, Inode.block_setBlock _ _ _ hi, if_pos rfl]

/-! ### The kernel's loop -/

theorem ensureBlock_kept (io : Io) (sb : Superblock) (k : UInt32) (ino : Inode) {i m : ℕ}
    (hi : i < 30) (hm : m ≠ i) : (ensureBlock io sb k ino i).2.block m = ino.block m := by
  unfold ensureBlock
  split_ifs
  · rw [Inode.block_setBlock _ _ _ hi, if_neg hm]
  · rfl

/-- The loop does not come back to earlier blocks. -/
theorem writeLoop_kept (sb : Superblock) (k : UInt32) (buf : ℕ → UInt8) (n : ℕ) :
    ∀ (i : ℕ) (io : Io) (ino : Inode) (left : UInt32) (m : ℕ), i + n ≤ 30 → m < i →
      (writeLoop sb k buf n i io ino left).2.block m = ino.block m := by
  induction n with
  | zero =>
      intro i io ino left m _ _
      rfl
  | succ n ih =>
      intro i io ino left m hin hm
      rw [writeLoop_succ, ih (i + 1) _ _ _ m (by omega) (by omega),
        ensureBlock_kept io sb k ino (by omega) (by omega)]

/-- **The kernel takes the blocks the tool has chosen.** -/
theorem writeLoop_blocks {sb : Superblock} (hsb : sb.dataBlockStart = 17) {k : UInt32}
    (hk : k.toNat < 64) (buf : ℕ → UInt8) (n : ℕ) : ∀ (i : ℕ) (io : Io) (ino : Inode)
    (left : UInt32), inodeAt io.disk k.toNat = ino → ino.isUsed = true →
    (∀ m, i ≤ m → ino.block m = 0) → i + n ≤ 30 → ∀ m < n,
      ((writeLoop sb k buf n i io ino left).2.block (i + m)).toNat =
        (freeBlocks io.disk).getD m 0 := by
  induction n with
  | zero =>
      intro i io ino left _ _ _ _ m hm
      omega
  | succ n ih =>
      intro i io ino left hself hused hzero hin m hm
      have hfirst := findFreeDataBlock_first io hsb
      have hens : ensureBlock io sb k ino i =
          (SimpleFs.writeInode io k (ino.setBlock i (findFreeDataBlock io sb)),
            ino.setBlock i (findFreeDataBlock io sb)) := if_pos (hzero i (le_refl i))
      have hblock : ∀ m, (ino.setBlock i (findFreeDataBlock io sb)).block m =
          if m = i then findFreeDataBlock io sb else ino.block m :=
        fun m => Inode.block_setBlock _ _ m (by omega)
      rw [writeLoop_succ, hens]
      dsimp only
      rw [hblock, if_pos rfl]
      generalize findFreeDataBlock io sb = b at hfirst hblock ⊢
      generalize hio : (SimpleFs.writeInode io k (ino.setBlock i b)).write
        ⟨.data, b.toNat, chunkSector buf i (chunkLen left).toNat⟩ = io₂
      have hdisk : ∀ i' < 64, inodeAt io₂.disk i' =
          inodeAt (putInode io.disk k.toNat (ino.setBlock i b)) i' := by
        intro i' hi'
        rw [← hio]
        exact inodeAt_update _ _ hi' hfirst.ge
      have hfree : freeBlocks io.disk = b.toNat :: freeBlocks io₂.disk := by
        refine freeBlocks_of_first hfirst fun c hc => ?_
        rw [taken_congr hdisk, ← hself]
        exact taken_setBlock hk (by omega) (by rw [hself]; exact hused)
          (by rw [hself]; exact hzero i (le_refl i)) hc
      have hself₂ : inodeAt io₂.disk k.toNat = ino.setBlock i b := by
        rw [hdisk _ hk, inodeAt_putInode_same]
      have hzero₂ : ∀ m, i + 1 ≤ m → (ino.setBlock i b).block m = 0 := by
        intro m hm
        rw [hblock, if_neg (by omega)]
        exact hzero m (by omega)
      rw [hfree]
      cases m with
      | zero =>
          rw [List.getD_cons_zero, writeLoop_kept _ _ _ _ _ _ _ _ _ (by omega) (by omega), Nat.add_zero,
            hblock, if_pos rfl]
      | succ m =>
          rw [List.getD_cons_succ, ← ih (i + 1) io₂ _ (left - chunkLen left) hself₂ hused hzero₂
            (by omega) m (by omega), Nat.add_right_comm, Nat.add_assoc]

/-- The kernel and the tool fill a block with the same bytes. -/
theorem chunkSector_eq {buf : ℕ → UInt8} {data : List UInt8}
    (hbuf : ∀ i < data.length, buf i = data.getD i 0) {m : ℕ} (hm : 512 * m < data.length) :
    chunkSector buf m (min 512 (data.length - 512 * m)) = sectorOf (chunk data m) := by
  apply Buf.ext
  intro q hq
  have hr : (sectorOf (chunk data m)).get q = (chunk data m).getD q 0 :=
    Buf.get_ofFn (fun k => (chunk data m).getD k 0) hq
  have hc : (chunk data m).getD q 0 = data.getD (m * 512 + q) 0 := by
    unfold chunk
    rw [List.getD_eq_getElem?_getD, List.getD_eq_getElem?_getD, List.getElem?_take_of_lt hq,
      List.getElem?_drop]
  rw [hr, hc]
  unfold chunkSector
  by_cases hin : q < min 512 (data.length - 512 * m)
  · have hb := Buf.get_blit_in (Buf.zero : Sector) 0 (min 512 (data.length - 512 * m))
      (fun q => buf (m * 512 + q)) (k := q) hin (by omega)
    rw [Nat.zero_add] at hb
    rw [hb]
    exact hbuf _ (by omega)
  · rw [Buf.get_blit_out _ _ (by omega), Buf.get_zero, List.getD_eq_default _ _ (by omega)]

theorem SafeRun.sector_zero {io io' : Io} (hs : SafeRun io io') (h : FsInv io.disk) :
    io'.disk 0 = io.disk 0 := by
  obtain ⟨ws, hws, rfl⟩ := hs
  induction ws generalizing io with
  | nil => rfl
  | cons w ws ih =>
      cases hws with
      | cons hw hrest =>
          have hpos := hw.lba_pos h.blocks
          have h1 : (io.write w).disk 0 = io.disk 0 := Function.update_of_ne (by omega) _ _
          rw [← h1]
          exact ih (hw.inv h) hrest

/-- **A kernel write to a fresh file stores what the tool stores.** -/
theorem simplefsWrite_stored {io : Io} {sb : Superblock} (h : FsInv io.disk)
    (hsb : sb.dataBlockStart = 17) {p : UInt32} {name : CStr} {k : ℕ}
    (hl : simplefsLookup io p name = k) (hk : k < 64)
    (hfresh : inodeAt io.disk k = Inode.fresh INODE_USED) {buf : ℕ → UInt8} {data : List UInt8}
    (hbuf : ∀ i < data.length, buf i = data.getD i 0) (hsize : data.length ≤ 30 * 512) :
    (simplefsWrite io sb p name buf (UInt32.ofNat data.length)).1 = 0 ∧
    Stored io.disk (simplefsWrite io sb p name buf (UInt32.ofNat data.length)).2.disk k
      ((freeBlocks io.disk).take (blockCount data)) data := by
  have hcu : (UInt32.ofNat k).toNat = k := toNat_ofNat_lt hk
  have hlen : (UInt32.ofNat data.length).toNat = data.length := by
    rw [UInt32.toNat_ofNat']
    omega
  have hn : ((UInt32.ofNat data.length + 511) / 512).toNat = blockCount data := by
    rw [toNat_neededBlocks (by omega), hlen]
    rfl
  have hn30 : blockCount data ≤ 30 := by
    unfold blockCount
    omega
  have hused : (inodeAt io.disk (UInt32.ofNat k).toNat).isUsed = true := by
    rw [hcu, hfresh]
    decide
  have hfile : (inodeAt io.disk (UInt32.ofNat k).toNat).isDir = false := by
    rw [hcu, hfresh]
    decide
  have hspec := writeLoop_spec hsb (k := UInt32.ofNat k) (by omega) buf (blockCount data) 0 io _
    (UInt32.ofNat data.length) h rfl hused hfile (by omega)
  have hblocks := writeLoop_blocks hsb (k := UInt32.ofNat k) (by omega) buf (blockCount data) 0 io _
    (UInt32.ofNat data.length) rfl hused (fun m _ => by rw [hcu, hfresh, Inode.block_fresh])
    (by omega)
  rw [simplefsWrite_eq, hl, if_neg (by omega), hn, if_neg (by omega), cUInt_natCast]
  dsimp only
  generalize writeLoop sb (UInt32.ofNat k) buf (blockCount data) 0 io
    (inodeAt io.disk (UInt32.ofNat k).toNat) (UInt32.ofNat data.length) = r at hspec hblocks ⊢
  have hbs : ((freeBlocks io.disk).take (blockCount data)).length = blockCount data :=
    length_newBlocks hn30
  have hget : ∀ m < blockCount data,
      ((freeBlocks io.disk).take (blockCount data)).getD m 0 = (r.2.block m).toNat := by
    intro m hm
    rw [← Nat.zero_add m, hblocks m hm, Nat.zero_add, List.getD_eq_getElem?_getD,
      List.getElem?_take_of_lt hm, List.getD_eq_getElem?_getD]
  have hkept := hspec.others
  rw [hcu] at hkept
  rw [writeInode_disk, hcu]
  refine ⟨rfl, ?_, ?_, ?_, ?_⟩
  · rw [inodeAt_putInode_same]
    refine Inode.ext_block rfl ?_ fun m hm => ?_
    · show r.2.flags = INODE_USED
      rw [hspec.flags, hcu, hfresh]
      rfl
    · rw [block_fileInode _ (by omega)]
      show r.2.block m = _
      by_cases hmb : m < blockCount data
      · rw [hget m hmb, UInt32.ofNat_toNat]
      · rw [hspec.kept m (Or.inr (by omega)), hcu, hfresh, Inode.block_fresh,
          List.getD_eq_default _ _ (by omega)]
        rfl
  · intro i hi hik
    rw [inodeAt_putInode_ne _ _ hik, hkept i hi hik]
  · intro m hm
    rw [hbs] at hm
    have hge : 17 ≤ (r.2.block m).toNat := by
      have hmem := List.getElem_mem (l := (freeBlocks io.disk).take (blockCount data)) (n := m)
        (by omega)
      rw [← List.getD_eq_getElem (d := 0), hget m hm] at hmem
      exact (mem_freeBlocks.1 (List.mem_of_mem_take hmem)).1
    rw [hget m hm, putInode_data _ _ hk (Or.inr hge),
      (hspec.filled m (Nat.zero_le m) (by omega)).2, Nat.sub_zero, hlen]
    exact chunkSector_eq hbuf (by unfold blockCount at hm; omega)
  · intro b hb hnot
    rw [putInode_data _ _ hk hb]
    obtain hb0 | hb17 := hb
    · obtain rfl : b = 0 := by omega
      exact SafeRun.sector_zero hspec.run h
    · refine hspec.frame b hb17 fun m _ hm he => hnot ?_
      rw [Nat.zero_add] at hm
      rw [← he, ← hget m hm, List.getD_eq_getElem _ _ (by omega)]
      exact List.getElem_mem _

/-! ### The two images -/

section images

variable {d : Disk} {t : PyStr} {data : List UInt8} {j k : ℕ}

/-- Taking a free inode does not change which blocks are free. -/
theorem freeBlocks_fresh (hk : k < 64) (hfree : (inodeAt d k).isUsed = false) {d' : Disk}
    (h : ∀ i < 64, inodeAt d' i = inodeAt (putInode d k (Inode.fresh INODE_USED)) i) :
    freeBlocks d' = freeBlocks d := by
  have htaken : ∀ c, 17 ≤ c → (Taken d' c ↔ Taken d c) := by
    intro c hc
    rw [taken_congr h]
    constructor
    · rintro ⟨i, hi, hu, m, hm, he⟩
      rw [inodeAt_putInode] at hu he
      split_ifs at hu he with hik
      · rw [Inode.block_fresh] at he
        have hz : (0 : UInt32).toNat = 0 := rfl
        omega
      · exact ⟨i, hi, hu, m, hm, he⟩
    · rintro ⟨i, hi, hu, m, hm, he⟩
      have hik : i ≠ k := by
        rintro rfl
        rw [hfree] at hu
        cases hu
      refine ⟨i, hi, ?_, m, hm, ?_⟩
      · rw [inodeAt_putInode_ne _ _ hik]
        exact hu
      · rw [inodeAt_putInode_ne _ _ hik]
        exact he
  unfold freeBlocks
  refine List.filter_congr fun c hc => ?_
  rw [List.mem_range'_1] at hc
  rw [decide_eq_decide, mem_getAllUsedBlocks, mem_getAllUsedBlocks, htaken c hc.1]

/-- The sectors of an image after an entry has been added, from the image before. -/
theorem linked_apply {d₀ : Disk} {s : CStr} {c : UInt32} (hb : dirBlock d 0 = dirBlock d₀ 0)
    (ht : d (dirBlock d₀ 0) = d₀ (dirBlock d₀ 0)) (b : ℕ) : linked d 0 j c s b =
      if b = dirBlock d₀ 0 then
        setEntry (d₀ (dirBlock d₀ 0)) j (mkEntry (slot d₀ 0 j).filename c s)
      else d b := by
  have hslot : slot d 0 j = slot d₀ 0 j := by
    unfold slot entryAt
    rw [hb, ht]
  unfold linked
  rw [hb, ht, hslot, Function.update_apply]

/-- Storing a file and then naming it, or the other way round. -/
theorem linked_eq_of_stored (h : FsInv d) {s : CStr} (hk : k < 64)
    (hfree : (inodeAt d k).isUsed = false) {d₁ d₂ : Disk} {n : ℕ}
    (h₁ : Stored d d₁ k ((freeBlocks d).take n) data)
    (h₂ : Stored (linked (putInode d k (Inode.fresh INODE_USED)) 0 j (UInt32.ofNat k) s) d₂ k
      ((freeBlocks d).take n) data) :
    linked d₁ 0 j (UInt32.ofNat k) s = d₂ := by
  have hk0 : (0 : ℕ) ≠ k := fun he => (h.tree.unnamed_of_free hfree).1 he.symm
  have hge := (h.blocks.dirBlock_range h.tree.root).1
  have hnot : dirBlock d 0 ∉ (freeBlocks d).take n := by
    intro hmem
    refine (mem_freeBlocks.1 (List.mem_of_mem_take hmem)).2.2 ?_
    exact ⟨0, by omega, h.tree.root.used, 0, by omega, rfl⟩
  have hb₁ : dirBlock d₁ 0 = dirBlock d 0 := by
    unfold dirBlock
    rw [h₁.others 0 (by omega) hk0]
  have hb : dirBlock (putInode d k (Inode.fresh INODE_USED)) 0 = dirBlock d 0 := by
    unfold dirBlock
    rw [inodeAt_putInode_ne _ _ hk0]
  have hlink₁ := fun b => linked_apply (j := j) (s := s) (c := UInt32.ofNat k) hb₁
    (h₁.frame _ (Or.inr hge) hnot) b
  have hlink := fun b => linked_apply (j := j) (s := s) (c := UInt32.ofNat k) hb
    (putInode_data _ _ hk (Or.inr hge)) b
  apply disk_ext
  · intro i hi
    have hi₁ : inodeAt (linked d₁ 0 j (UInt32.ofNat k) s) i = inodeAt d₁ i :=
      inodeAt_update _ _ hi (by omega)
    rw [hi₁]
    by_cases hik : i = k
    · subst hik
      rw [h₁.inode, h₂.inode]
    · have hi₂ : inodeAt (linked (putInode d k (Inode.fresh INODE_USED)) 0 j (UInt32.ofNat k) s) i =
          inodeAt (putInode d k (Inode.fresh INODE_USED)) i := inodeAt_update _ _ hi (by omega)
      rw [h₁.others i hi hik, h₂.others i hi hik, hi₂, inodeAt_putInode_ne _ _ hik]
  · intro b hb
    by_cases hmem : b ∈ (freeBlocks d).take n
    · obtain ⟨m, hm, rfl⟩ := List.getElem_of_mem hmem
      have hne : ((freeBlocks d).take n)[m] ≠ dirBlock d 0 := fun he => hnot (he ▸ hmem)
      rw [hlink₁, if_neg hne, ← List.getD_eq_getElem (d := 0), h₁.data m hm, h₂.data m hm]
    · rw [h₂.frame b hb hmem, hlink₁, hlink, h₁.frame b hb hmem, putInode_data _ _ hk hb]

end images

/-! ### Agreement -/

/-- `simplefs_create(0, name)` followed by `simplefs_write(0, name, buf, size)`: the two results
and the image. -/
def createAndWrite (d : Disk) (name : CStr) (buf : ℕ → UInt8) (size : UInt32) : (ℤ × ℤ) × Disk :=
  let created := simplefsCreate ⟨d, []⟩ 0 name
  let written := simplefsWrite created.2 (getSuperblock (d SUPERBLOCK_SECTOR)) 0 name buf size
  ((created.1, written.1), written.2.disk)

theorem zero_not_mem_spelling (s : CStr) : 0 ∉ spelling s := by
  intro h
  obtain ⟨b, hb, he⟩ := List.mem_map.1 h
  have hz : b = 0 := UInt8.toNat.inj he
  exact s.noNul (hz ▸ hb)

theorem nameOf_spelling {s : CStr} (h : IsAscii (spelling s)) (h0 : 0 ∉ spelling s) :
    nameOf (spelling s) h h0 = s := by
  apply CStr.ext
  unfold nameOf spelling
  dsimp only
  rw [List.map_map]
  refine (List.map_congr_left fun b _ => ?_).trans (List.map_id _)
  exact UInt8.ofNat_toNat

section agreement

variable {d : Disk} {s : CStr} {b : List UInt8}

theorem findTarget_of_absent (h : FsInv d) (hasc : IsAscii (spelling s)) (habs : Absent d 0 s) :
    findTarget d (spelling s) = none := by
  cases ht : findTarget d (spelling s) with
  | none => rfl
  | some j =>
      obtain ⟨hj, hp, hslot⟩ := findTarget_some ht
      obtain ⟨⟨s', hs'⟩, -⟩ := h.tree.entry 0 h.tree.root j hj hp
      rw [slotName_of_hasName hs', decodeName_eq_spelling hasc] at hslot
      subst hslot
      exact absurd hs' (habs j hj hp)

/-- A created file is found, and its inode is fresh. -/
theorem simplefsCreate_fresh (h : FsInv d) (hname : NameOk s) (habs : Absent d 0 s) {j k : ℕ}
    (hk : firstFree d = some k) (hj : firstEmpty d 0 = some j) {io : Io}
    (hio : simplefsCreate ⟨d, []⟩ 0 s = (0, io)) :
    io.disk = linked (putInode d k (Inode.fresh INODE_USED)) 0 j (UInt32.ofNat k) s ∧
      FsInv io.disk ∧ inodeAt io.disk k = Inode.fresh INODE_USED ∧ simplefsLookup io 0 s = k := by
  obtain ⟨hk64, hfree, -⟩ := firstFree_eq_some_iff.1 hk
  obtain ⟨hj16, -, -⟩ := firstEmpty_eq_some_iff.1 hj
  have hinv := (@simplefsCreate_safe ⟨d, []⟩ h 0 (Or.inl h.tree.root) s).inv h
  have hst := @sameTree_take ⟨d, []⟩ h k hk64 hfree INODE_USED (by decide)
  have hrun : SafeRun ⟨d, []⟩ (Io.take ⟨d, []⟩ k INODE_USED) :=
    SafeRun.step (Step.takeInode k INODE_USED hk64 hfree (by decide))
  have hblocks := (hrun.inv h).blocks
  have hroot := (hst.dirs 0).2 h.tree.root
  have hdisk : io.disk = linked (Io.take ⟨d, []⟩ k INODE_USED).disk 0 j (UInt32.ofNat k) s := by
    have he := @simplefsCreate_eq_link ⟨d, []⟩ 0 s k h h.tree.root hname habs hk j hj
    rw [hio, Prod.mk.injEq] at he
    rw [he.2]
    rfl
  have hino : inodeAt io.disk k = Inode.fresh INODE_USED := by
    rw [hdisk, inodeAt_linked hblocks hroot hk64, Io.take_disk, inodeAt_putInode_same]
  rw [hio] at hinv
  refine ⟨hdisk, hinv, hino, ?_⟩
  have hslot := slot_linked (k := UInt32.ofNat k) (s := s) hblocks hroot hj16 hroot j
  rw [if_pos ⟨rfl, rfl⟩, ← hdisk] at hslot
  have hhas := hasName_mkEntry (slot (Io.take ⟨d, []⟩ k INODE_USED).disk 0 j).filename
    (UInt32.ofNat k) hname.1
  rw [← hslot] at hhas
  have hn : NamesFile io.disk j k := by
    refine ⟨hj16, hhas.isPresent_iff.2 hname.2, ?_, ?_⟩
    · rw [hslot]
      exact toNat_ofNat_lt hk64
    · rw [hino]
      decide
  exact hn.lookup hinv hhas

/-- With a free inode and an empty slot both succeed, with the same image. -/
theorem createAndWrite_of_room (h : ImageInv d) (hasc : IsAscii (spelling s)) (hname : NameOk s)
    (habs : Absent d 0 s) (hb : b.length ≤ 30 * 512) {buf : ℕ → UInt8}
    (hbuf : ∀ i < b.length, buf i = b.getD i 0) {f : HostFile} (ha : Accepted f (spelling s) b)
    {j k : ℕ} (hk : firstFree d = some k) (hj : firstEmpty d 0 = some j) :
    put d f (spelling s) = (.ok (), (createAndWrite d s buf (UInt32.ofNat b.length)).2) ∧
      (createAndWrite d s buf (UInt32.ofNat b.length)).1 = (0, 0) := by
  obtain ⟨hk64, hfree, -⟩ := firstFree_eq_some_iff.1 hk
  have hsb : (getSuperblock (d SUPERBLOCK_SECTOR)).dataBlockStart = 17 := by
    rw [h.superblock]
    rfl
  have hcreate := @simplefsCreate_eq_link ⟨d, []⟩ 0 s k h.toFsInv h.tree.root hname habs hk j hj
  obtain ⟨hdisk, hinv, hfresh, hlook⟩ := simplefsCreate_fresh h.toFsInv hname habs hk hj hcreate
  obtain ⟨hret, hstored⟩ := simplefsWrite_stored hinv hsb hlook hk64 hfresh hbuf hb
  have hbs : freeBlocks (linked (putInode d k (Inode.fresh INODE_USED)) 0 j (UInt32.ofNat k) s) =
      freeBlocks d := by
    refine freeBlocks_fresh hk64 hfree fun i hi => ?_
    have hk0 : (0 : ℕ) ≠ k := fun he => (h.tree.unnamed_of_free hfree).1 he.symm
    refine inodeAt_update _ _ hi ?_
    unfold dirBlock
    rw [inodeAt_putInode_ne _ _ hk0]
    exact (h.blocks.dirBlock_range h.tree.root).1
  rw [hdisk, hbs] at hstored
  have heq := linked_eq_of_stored h.toFsInv hk64 hfree (newFile_stored hk64 b) hstored
  rw [put_of_new h.toFsInv ha (findTarget_of_absent h.toFsInv hasc habs) hk,
    addRootEntry_newFile h hk hj hasc (zero_not_mem_spelling s) ha.count, nameOf_spelling,
    heq]
  unfold createAndWrite
  dsimp only
  rw [hcreate]
  exact ⟨rfl, Prod.ext rfl hret⟩

/-- Without a free inode or an empty slot both fail. -/
theorem createAndWrite_of_full (h : ImageInv d) (hname : NameOk s) (habs : Absent d 0 s)
    (hasc : IsAscii (spelling s)) {f : HostFile} (ha : Accepted f (spelling s) b)
    (hfull : firstFree d = none ∨ firstEmpty d 0 = none) (buf : ℕ → UInt8) (size : UInt32) :
    (put d f (spelling s)).1 ≠ .ok () ∧ (createAndWrite d s buf size).1.1 ≠ 0 := by
  have ht := findTarget_of_absent h.toFsInv hasc habs
  cases hk : firstFree d with
  | none =>
      rw [put_of_no_inode h.toFsInv ha ht hk]
      refine ⟨by simp, ?_⟩
      obtain ⟨-, hr⟩ | ⟨-, -, k, hk64, hfree, -⟩ :=
        @simplefsCreate_cases ⟨d, []⟩ h.toFsInv 0 h.tree.root s
      · unfold createAndWrite
        dsimp only
        rw [hr]
        show (-1 : ℤ) ≠ 0
        decide
      · rw [firstFree_eq_none_iff.1 hk k hk64] at hfree
        cases hfree
  | some k =>
      have hj : firstEmpty d 0 = none := hfull.resolve_left (by rw [hk]; simp)
      have hslots := (newFile_sameTree h.toFsInv hk b).slots 0 h.tree.root
      rw [put_of_new h.toFsInv ha ht hk, addRootEntry_of_full ((firstEmpty_congr hslots).trans hj)]
      refine ⟨by simp, ?_⟩
      unfold createAndWrite
      dsimp only
      rw [@simplefsCreate_of_full ⟨d, []⟩ 0 s k h.toFsInv h.tree.root hname habs hk hj]
      show (-1 : ℤ) ≠ 0
      decide

end agreement

/-- **Kernel and host tool write the same image.** -/
theorem kernel_put_agree (d : Disk) (h : Reachable d) (s : CStr) (hasc : IsAscii (spelling s))
    (hpos : 1 ≤ s.strlen) (hlen : s.strlen ≤ 27) (habs : Absent d 0 s) (b : List UInt8)
    (hb : b.length ≤ DIRECT_BLOCKS * 512) (f : HostFile) (hf : f.content = some b)
    (buf : ℕ → UInt8) (hbuf : ∀ i < b.length, buf i = b.getD i 0) :
    ((put d f (spelling s)).1 = .ok () ↔
      (createAndWrite d s buf (UInt32.ofNat b.length)).1 = (0, 0)) ∧
    ((put d f (spelling s)).1 = .ok () →
      (put d f (spelling s)).2 = (createAndWrite d s buf (UInt32.ofNat b.length)).2) := by
  have hi := h.imageInv
  have hname : NameOk s := ⟨by omega, by omega⟩
  have hsp : (spelling s).length = s.strlen := by
    unfold spelling CStr.strlen
    rw [List.length_map]
  have ha : Accepted f (spelling s) b := ⟨hf, by rw [hsp]; simp only [MAX_FILENAME]; omega, hb⟩
  by_cases hfull : firstFree d = none ∨ firstEmpty d 0 = none
  · obtain ⟨h1, h2⟩ := createAndWrite_of_full hi hname habs hasc ha hfull buf
      (UInt32.ofNat b.length)
    refine ⟨⟨fun h => absurd h h1, fun h => absurd ?_ h2⟩, fun h => absurd h h1⟩
    rw [h]
  · rw [not_or] at hfull
    obtain ⟨k, hk⟩ := Option.ne_none_iff_exists'.1 hfull.1
    obtain ⟨j, hj⟩ := Option.ne_none_iff_exists'.1 hfull.2
    obtain ⟨hput, hret⟩ := createAndWrite_of_room hi hasc hname habs hb hbuf ha hk hj
    rw [hput, hret]
    exact ⟨⟨fun _ => rfl, fun _ => rfl⟩, fun _ => rfl⟩

/-- Three bytes under the name `"a"` on a fresh image. -/
theorem freshImage_agree :
    (createAndWrite freshImage nameA (fun i => [1, 2, 3].getD i 0) 3).1 = (0, 0) ∧
      (put freshImage ⟨[98], some [1, 2, 3]⟩ [97]).2 =
        (createAndWrite freshImage nameA (fun i => [1, 2, 3].getD i 0) 3).2 := by
  have hasc : IsAscii (spelling nameA) := by
    unfold IsAscii
    decide
  have ht : findTarget freshImage [97] = none := findTarget_fresh_none (by decide) (by decide)
  have habs : Absent freshImage 0 nameA := absent_of_findTarget (t := [97]) hasc (by decide) ht
  obtain ⟨hiff, himg⟩ := kernel_put_agree freshImage (Reachable.format _) nameA hasc (by decide)
    (by decide) habs [1, 2, 3] (by decide) ⟨[98], some [1, 2, 3]⟩ rfl
    (fun i => [1, 2, 3].getD i 0) (fun _ _ => rfl)
  have hinv : ImageInv freshImage := imageInv_format _
  have hacc : Accepted ⟨[98], some [1, 2, 3]⟩ [97] [1, 2, 3] := ⟨rfl, by decide, by decide⟩
  have hok : (put freshImage ⟨[98], some [1, 2, 3]⟩ [97]).1 = .ok () := by
    rw [put_of_new hinv.toFsInv hacc ht firstFree_fresh, addRootEntry_newFile hinv firstFree_fresh
      firstEmpty_fresh (t := [97]) hasc (by decide) hacc.count]
  exact ⟨hiff.1 hok, himg hok⟩

end NosmeriOs.HostTool
