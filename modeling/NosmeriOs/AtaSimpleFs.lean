import NosmeriOs.DiskProg

/-! # The file system above the disk driver

`fs/simplefs.cpp` once more, as code that calls `ata_read_sector` and `ata_write_sector`.  The
theorems `run_…` say that this is the file system with which the rest of the development works, and
the theorems `inRange_…` that the sectors are on the disk. -/

namespace NosmeriOs.Ata

open Bytes PortIo
open SimpleFs (Sector Disk Io Purpose SectorWrite Inode DirEntry Superblock INODE_START_SECTOR
  INODE_SECTORS INODES_PER_SECTOR INODE_COUNT DIRECT_BLOCKS ENTRIES_PER_BLOCK MAX_FILENAME
  INODE_USED INODE_DIR getInode setInode getEntry setEntry getSuperblock mkEntry newTable cInt cUInt
  formatSuperblock rootInode)

namespace DiskProg

def readSector (lba : UInt32) : DiskProg Sector := .read lba .ret

def writeSector (purpose : Purpose) (lba : UInt32) (buffer : Sector) : DiskProg Unit :=
  .write purpose lba buffer (.ret ())

/-! ### `fs/simplefs.cpp` -/

def clearInodes : List ℕ → DiskProg Unit
  | [] => return
  | sec :: secs => do
      writeSector .inodeTable (UInt32.ofNat sec) Buf.zero
      clearInodes secs

def formatDisk : DiskProg Superblock := do
  writeSector .superblock (UInt32.ofNat SimpleFs.SUPERBLOCK_SECTOR)
    (Buf.zero.blit 0 16 formatSuperblock.byteAt)
  clearInodes (List.range' INODE_START_SECTOR INODE_SECTORS)
  writeSector .inodeTable (UInt32.ofNat INODE_START_SECTOR) (setInode Buf.zero 0 rootInode)
  writeSector .dirTable formatSuperblock.dataBlockStart (newTable 0 0)
  return formatSuperblock

def simplefsInit : DiskProg Superblock := do
  let buffer ← readSector (UInt32.ofNat SimpleFs.SUPERBLOCK_SECTOR)
  let sb := getSuperblock buffer
  if sb.magic != SimpleFs.MAGIC || sb.totalSectors == 0 then formatDisk else return sb

def inodeSector (inodeIdx : UInt32) : UInt32 :=
  inodeIdx / UInt32.ofNat INODES_PER_SECTOR + UInt32.ofNat INODE_START_SECTOR

def readInode (inodeIdx : UInt32) : DiskProg Inode := do
  let buffer ← readSector (inodeSector inodeIdx)
  return getInode buffer (inodeIdx.toNat % INODES_PER_SECTOR)

def writeInode (inodeIdx : UInt32) (inode : Inode) : DiskProg Unit := do
  let buffer ← readSector (inodeSector inodeIdx)
  writeSector .inodeTable (inodeSector inodeIdx)
    (setInode buffer (inodeIdx.toNat % INODES_PER_SECTOR) inode)

def findFreeInode : List ℕ → DiskProg (Option (ℕ × ℕ))
  | [] => return none
  | sec :: secs => do
      let buffer ← readSector (UInt32.ofNat sec)
      match (List.range INODES_PER_SECTOR).findSome? fun i =>
          if !(getInode buffer i).isUsed then some (sec, i) else none with
      | some found => return some found
      | none => findFreeInode secs

def allocateFreeInode (flags : UInt32) : DiskProg ℤ := do
  match ← findFreeInode (List.range' INODE_START_SECTOR INODE_SECTORS) with
  | none => return -1
  | some (targetSector, targetIndex) =>
      let buffer ← readSector (UInt32.ofNat targetSector)
      writeSector .inodeTable (UInt32.ofNat targetSector)
        (setInode buffer targetIndex (Inode.fresh flags))
      return ((targetSector - INODE_START_SECTOR) * INODES_PER_SECTOR + targetIndex : ℕ)

def simplefsGetInode (inodeIdx : UInt32) : DiskProg (Option Inode) := do
  if INODE_COUNT ≤ inodeIdx.toNat then return none
  else return some (← readInode inodeIdx)

def isBlockUsed (blockNum : UInt32) : List ℕ → DiskProg Bool
  | [] => return false
  | sec :: secs => do
      let buffer ← readSector (UInt32.ofNat sec)
      if (List.range INODES_PER_SECTOR).any fun i => (getInode buffer i).isUsed &&
          (List.range DIRECT_BLOCKS).any fun j => (getInode buffer i).block j == blockNum then
        return true
      else isBlockUsed blockNum secs

def findFreeFrom : ℕ → UInt32 → DiskProg UInt32
  | 0, candidate => return candidate
  | fuel + 1, candidate => do
      if ← isBlockUsed candidate (List.range' INODE_START_SECTOR INODE_SECTORS) then
        findFreeFrom fuel (candidate + 1)
      else return candidate

def findFreeDataBlock (sb : Superblock) : DiskProg UInt32 :=
  findFreeFrom (INODE_COUNT * DIRECT_BLOCKS + 1) sb.dataBlockStart

def simplefsLookup (dirInodeIdx : UInt32) (name : CStr) : DiskProg ℤ := do
  let inode ← readInode dirInodeIdx
  if !inode.isDir then return -1
  else
    let buffer ← readSector (inode.block 0)
    match (List.range ENTRIES_PER_BLOCK).find? fun i =>
        (getEntry buffer i).isPresent &&
          CStr.strcmp (fun k => buffer.get (32 * i + 4 + k)) name == 0 with
    | some i => return cInt (getEntry buffer i).inodeIdx
    | none => return -1

def simplefsGetDirentry (dirInodeIdx : UInt32) (index : ℤ) : DiskProg (Option DirEntry) := do
  if index < 0 ∨ (ENTRIES_PER_BLOCK : ℤ) ≤ index then return none
  else
    let inode ← readInode dirInodeIdx
    if !inode.isDir then return none
    else
      let buffer ← readSector (inode.block 0)
      if !(getEntry buffer index.toNat).isPresent then return none
      else return some (getEntry buffer index.toNat)

def addDirEntry (dirBlockNum : UInt32) (inodeIdx : UInt32) (name : CStr) : DiskProg ℤ := do
  let table ← readSector dirBlockNum
  match (List.range ENTRIES_PER_BLOCK).find? fun i => !(getEntry table i).isPresent with
  | none => return -1
  | some i =>
      writeSector .dirTable dirBlockNum
        (setEntry table i (mkEntry (getEntry table i).filename inodeIdx name))
      return 0

def simplefsCreate (parentInodeIdx : UInt32) (name : CStr) : DiskProg ℤ := do
  if MAX_FILENAME ≤ name.strlen ∨ name.strlen = 0 then return -1
  else
    let parentInode ← readInode parentInodeIdx
    if !parentInode.isDir then return -1
    else if (← simplefsLookup parentInodeIdx name) ≠ -1 then return -1
    else
      let targetInodeIdx ← allocateFreeInode INODE_USED
      if targetInodeIdx = -1 then return -1
      else if (← addDirEntry (parentInode.block 0) (cUInt targetInodeIdx) name) ≠ 0 then return -1
      else return 0

def simplefsMkdir (sb : Superblock) (parentInodeIdx : UInt32) (name : CStr) : DiskProg ℤ := do
  if MAX_FILENAME ≤ name.strlen ∨ name.strlen = 0 then return -1
  else
    let parentInode ← readInode parentInodeIdx
    if !parentInode.isDir then return -1
    else if (← simplefsLookup parentInodeIdx name) ≠ -1 then return -1
    else
      let targetInodeIdx ← allocateFreeInode (INODE_USED ||| INODE_DIR)
      if targetInodeIdx = -1 then return -1
      else
        let newDirBlock ← findFreeDataBlock sb
        writeSector .dirTable newDirBlock (newTable (cUInt targetInodeIdx) parentInodeIdx)
        let newDirInode ← readInode (cUInt targetInodeIdx)
        writeInode (cUInt targetInodeIdx) (newDirInode.setBlock 0 newDirBlock)
        if (← addDirEntry (parentInode.block 0) (cUInt targetInodeIdx) name) ≠ 0 then return -1
        else return 0

/-- `if (file_inode.blocks[i] == 0) { … }` -/
def takeBlock (sb : Superblock) (fileInodeIdx : UInt32) (i : ℕ) (fileInode : Inode) :
    DiskProg Inode := do
  if fileInode.block i ≠ 0 then return fileInode
  else
    let block ← findFreeDataBlock sb
    writeInode fileInodeIdx (fileInode.setBlock i block)
    return fileInode.setBlock i block

def writeLoop (sb : Superblock) (fileInodeIdx : UInt32) (buf : ℕ → UInt8) :
    ℕ → ℕ → Inode → UInt32 → DiskProg Inode
  | 0, _, fileInode, _ => return fileInode
  | n + 1, i, fileInode, bytesLeft => do
      let fileInode ← takeBlock sb fileInodeIdx i fileInode
      let chunk := if 512 < bytesLeft then 512 else bytesLeft
      writeSector .data (fileInode.block i)
        (Buf.zero.blit 0 chunk.toNat fun k => buf (i * 512 + k))
      writeLoop sb fileInodeIdx buf n (i + 1) fileInode (bytesLeft - chunk)

def simplefsWrite (sb : Superblock) (parentInodeIdx : UInt32) (name : CStr) (buf : ℕ → UInt8)
    (size : UInt32) : DiskProg ℤ := do
  let fileInodeIdx ← simplefsLookup parentInodeIdx name
  if fileInodeIdx = -1 then return -1
  else
    let neededBlocks := (size + 511) / 512
    if DIRECT_BLOCKS < neededBlocks.toNat then return -1
    else
      let fileInode ← readInode (cUInt fileInodeIdx)
      let fileInode ← writeLoop sb (cUInt fileInodeIdx) buf neededBlocks.toNat 0 fileInode size
      writeInode (cUInt fileInodeIdx) { fileInode with size := size }
      return 0

def readLoop (fileInode : Inode) : ℕ → ℕ → UInt32 → DiskProg (Option (List UInt8))
  | 0, _, _ => return some []
  | n + 1, i, bytesLeft => do
      if DIRECT_BLOCKS ≤ i then return none
      else
        let chunk := if 512 < bytesLeft then 512 else bytesLeft
        let buffer ← readSector (fileInode.block i)
        let rest ← readLoop fileInode n (i + 1) (bytesLeft - chunk)
        return rest.map ((List.range chunk.toNat).map buffer.get ++ ·)

def simplefsRead (parentInodeIdx : UInt32) (name : CStr) (size : UInt32) :
    DiskProg (Option (ℤ × List UInt8)) := do
  let fileInodeIdx ← simplefsLookup parentInodeIdx name
  if fileInodeIdx = -1 then return some (-1, [])
  else
    let fileInode ← readInode (cUInt fileInodeIdx)
    if fileInode.isDir then return some (-1, [])
    else
      let bytesToRead := if fileInode.size < size then fileInode.size else size
      let bytes ← readLoop fileInode ((bytesToRead + 511) / 512).toNat 0 bytesToRead
      return bytes.map fun bytes => (cInt bytesToRead, bytes)

/-! ### What they do -/

variable (io : Io)

@[simp] theorem run_readSector (lba : UInt32) :
    (readSector lba).run io = (SimpleFs.ataReadSector io lba.toNat, io) := rfl

@[simp] theorem run_writeSector (purpose : Purpose) (lba : UInt32) (buffer : Sector) :
    (writeSector purpose lba buffer).run io =
      ((), SimpleFs.ataWriteSector io purpose lba.toNat buffer) := rfl

theorem inodeSector_toNat (inodeIdx : UInt32) :
    (inodeSector inodeIdx).toNat = inodeIdx.toNat / INODES_PER_SECTOR + INODE_START_SECTOR := by
  have h := inodeIdx.toNat_lt
  unfold inodeSector
  rw [UInt32.toNat_add, UInt32.toNat_div]
  show (inodeIdx.toNat / 4 + 1) % 2 ^ 32 = inodeIdx.toNat / 4 + 1
  omega

@[simp] theorem run_readInode (inodeIdx : UInt32) :
    (readInode inodeIdx).run io = (SimpleFs.readInode io inodeIdx, io) := by
  simp [readInode, SimpleFs.readInode, inodeSector_toNat]

@[simp] theorem run_writeInode (inodeIdx : UInt32) (inode : Inode) :
    (writeInode inodeIdx inode).run io = ((), SimpleFs.writeInode io inodeIdx inode) := by
  simp [writeInode, SimpleFs.writeInode, inodeSector_toNat]

theorem ofNat_sector {sec : ℕ} (h : sec ∈ List.range' INODE_START_SECTOR INODE_SECTORS) :
    (UInt32.ofNat sec).toNat = sec := by
  obtain ⟨-, h⟩ := List.mem_range'_1.1 h
  rw [UInt32.toNat_ofNat']
  exact Nat.mod_eq_of_lt (h.trans (by decide))

theorem run_clearInodes {secs : List ℕ} (h : ∀ sec ∈ secs, (UInt32.ofNat sec).toNat = sec) :
    (clearInodes secs).run io = ((), secs.foldl
      (fun io sec => SimpleFs.ataWriteSector io .inodeTable sec Buf.zero) io) := by
  induction secs generalizing io with
  | nil => rfl
  | cons sec secs ih =>
      rw [clearInodes, run_bind, run_writeSector, h sec List.mem_cons_self]
      exact ih _ fun s hs => h s (List.mem_cons_of_mem _ hs)

@[simp] theorem run_formatDisk :
    formatDisk.run io = (formatSuperblock, SimpleFs.formatDisk io) := by
  unfold formatDisk
  simp only [run_bind, run_writeSector, run_clearInodes _ fun sec => ofNat_sector, run_pure]
  rfl

@[simp] theorem run_simplefsInit : simplefsInit.run io =
    ((SimpleFs.simplefsInit io).2, (SimpleFs.simplefsInit io).1) := by
  have h : simplefsInit.run io = (if SimpleFs.needsFormat io.disk = true then formatDisk
      else pure (getSuperblock (io.disk SimpleFs.SUPERBLOCK_SECTOR))).run io := rfl
  rw [h]
  unfold SimpleFs.simplefsInit
  split_ifs
  · exact run_formatDisk io
  · rfl

theorem run_findFreeInode {secs : List ℕ} (h : ∀ sec ∈ secs, (UInt32.ofNat sec).toNat = sec) :
    (findFreeInode secs).run io = (secs.findSome? fun sec =>
      (List.range INODES_PER_SECTOR).findSome? fun i =>
        if !(getInode (SimpleFs.ataReadSector io sec) i).isUsed then some (sec, i) else none,
      io) := by
  induction secs with
  | nil => rfl
  | cons sec secs ih =>
      have ih := ih fun s hs => h s (List.mem_cons_of_mem _ hs)
      rw [findFreeInode, run_bind, run_readSector, h sec List.mem_cons_self,
        List.findSome?_cons]
      dsimp only
      generalize List.findSome? (fun i =>
        if !(getInode (SimpleFs.ataReadSector io sec) i).isUsed then some (sec, i) else none)
        (List.range INODES_PER_SECTOR) = found
      cases found with
      | none => exact ih
      | some found => rfl

@[simp] theorem run_allocateFreeInode (flags : UInt32) :
    (allocateFreeInode flags).run io = SimpleFs.allocateFreeInode io flags := by
  unfold allocateFreeInode SimpleFs.allocateFreeInode SimpleFs.findFreeInode
  rw [run_bind, run_findFreeInode io fun sec => ofNat_sector]
  dsimp only
  cases hf : (List.range' INODE_START_SECTOR INODE_SECTORS).findSome? fun sec =>
      (List.range INODES_PER_SECTOR).findSome? fun i =>
        if !(getInode (SimpleFs.ataReadSector io sec) i).isUsed then some (sec, i) else none with
  | none => rfl
  | some found =>
      obtain ⟨targetSector, targetIndex⟩ := found
      have hmem : (UInt32.ofNat targetSector).toNat = targetSector := by
        obtain ⟨sec, hsec, h⟩ := List.exists_of_findSome?_eq_some hf
        obtain ⟨i, -, h⟩ := List.exists_of_findSome?_eq_some h
        split_ifs at h
        cases h
        exact ofNat_sector hsec
      simp [hmem]

@[simp] theorem run_simplefsGetInode (inodeIdx : UInt32) :
    (simplefsGetInode inodeIdx).run io = (SimpleFs.simplefsGetInode io inodeIdx, io) := by
  unfold simplefsGetInode SimpleFs.simplefsGetInode
  split_ifs <;> simp

theorem run_isBlockUsed (blockNum : UInt32) {secs : List ℕ}
    (h : ∀ sec ∈ secs, (UInt32.ofNat sec).toNat = sec) :
    (isBlockUsed blockNum secs).run io = (secs.any fun sec =>
      (List.range INODES_PER_SECTOR).any fun i =>
        (getInode (SimpleFs.ataReadSector io sec) i).isUsed &&
          (List.range DIRECT_BLOCKS).any fun j =>
            (getInode (SimpleFs.ataReadSector io sec) i).block j == blockNum, io) := by
  induction secs with
  | nil => rfl
  | cons sec secs ih =>
      have ih := ih fun s hs => h s (List.mem_cons_of_mem _ hs)
      rw [isBlockUsed, run_bind, run_readSector, h sec List.mem_cons_self, List.any_cons]
      dsimp only
      generalize List.any (List.range INODES_PER_SECTOR) _ = used
      cases used with
      | true => rfl
      | false => exact ih

theorem run_findFreeFrom (fuel : ℕ) (candidate : UInt32) : (findFreeFrom fuel candidate).run io =
    (SimpleFs.findFreeFrom (SimpleFs.isBlockUsed io) fuel candidate, io) := by
  induction fuel generalizing candidate with
  | zero => rfl
  | succ fuel ih =>
      rw [findFreeFrom, run_bind, run_isBlockUsed io candidate fun sec => ofNat_sector]
      show (if SimpleFs.isBlockUsed io candidate = true then _ else _ : DiskProg UInt32).run io = _
      rw [SimpleFs.findFreeFrom]
      split_ifs
      · exact ih _
      · rfl

@[simp] theorem run_findFreeDataBlock (sb : Superblock) :
    (findFreeDataBlock sb).run io = (SimpleFs.findFreeDataBlock io sb, io) :=
  run_findFreeFrom io _ _

@[simp] theorem run_simplefsLookup (dirInodeIdx : UInt32) (name : CStr) :
    (simplefsLookup dirInodeIdx name).run io =
      (SimpleFs.simplefsLookup io dirInodeIdx name, io) := by
  unfold simplefsLookup SimpleFs.simplefsLookup
  simp only [run_bind, run_readInode]
  split_ifs
  · rfl
  · simp only [run_bind, run_readSector]
    generalize List.find? _ (List.range ENTRIES_PER_BLOCK) = found
    cases found <;> rfl

@[simp] theorem run_simplefsGetDirentry (dirInodeIdx : UInt32) (index : ℤ) :
    (simplefsGetDirentry dirInodeIdx index).run io =
      (SimpleFs.simplefsGetDirentry io dirInodeIdx index, io) := by
  unfold simplefsGetDirentry SimpleFs.simplefsGetDirentry
  simp only [run_ite, run_bind, run_readInode, run_pure]
  split_ifs <;> simp_all

@[simp] theorem run_addDirEntry (dirBlockNum inodeIdx : UInt32) (name : CStr) :
    (addDirEntry dirBlockNum inodeIdx name).run io =
      SimpleFs.addDirEntry io dirBlockNum inodeIdx name := by
  unfold addDirEntry SimpleFs.addDirEntry
  simp only [run_bind, run_readSector]
  generalize List.find? _ (List.range ENTRIES_PER_BLOCK) = found
  cases found <;> rfl

@[simp] theorem run_simplefsCreate (parentInodeIdx : UInt32) (name : CStr) :
    (simplefsCreate parentInodeIdx name).run io =
      SimpleFs.simplefsCreate io parentInodeIdx name := by
  unfold simplefsCreate SimpleFs.simplefsCreate
  simp only [run_ite, run_bind, run_readInode, run_simplefsLookup, run_allocateFreeInode,
    run_addDirEntry, run_pure]

@[simp] theorem run_simplefsMkdir (sb : Superblock) (parentInodeIdx : UInt32) (name : CStr) :
    (simplefsMkdir sb parentInodeIdx name).run io =
      SimpleFs.simplefsMkdir io sb parentInodeIdx name := by
  unfold simplefsMkdir SimpleFs.simplefsMkdir
  simp only [run_ite, run_bind, run_readInode, run_writeInode, run_writeSector,
    run_findFreeDataBlock, run_simplefsLookup, run_allocateFreeInode, run_addDirEntry, run_pure]

theorem run_takeBlock (sb : Superblock) (fileInodeIdx : UInt32) (i : ℕ) (fileInode : Inode) :
    (takeBlock sb fileInodeIdx i fileInode).run io =
      ((SimpleFs.ensureBlock io sb fileInodeIdx fileInode i).2,
        (SimpleFs.ensureBlock io sb fileInodeIdx fileInode i).1) := by
  unfold takeBlock SimpleFs.ensureBlock
  simp only [run_bind, run_ite, run_findFreeDataBlock, run_writeInode, run_pure, ite_not]
  split_ifs <;> rfl

theorem run_writeLoop (sb : Superblock) (fileInodeIdx : UInt32) (buf : ℕ → UInt8) (n i : ℕ)
    (fileInode : Inode) (bytesLeft : UInt32) :
    (writeLoop sb fileInodeIdx buf n i fileInode bytesLeft).run io =
      ((SimpleFs.writeLoop sb fileInodeIdx buf n i io fileInode bytesLeft).2,
        (SimpleFs.writeLoop sb fileInodeIdx buf n i io fileInode bytesLeft).1) := by
  induction n generalizing io i fileInode bytesLeft with
  | zero => rfl
  | succ n ih =>
      rw [writeLoop, SimpleFs.writeLoop_succ, run_bind, run_takeBlock, run_bind, run_writeSector]
      exact ih _ _ _ _

@[simp] theorem run_simplefsWrite (sb : Superblock) (parentInodeIdx : UInt32) (name : CStr)
    (buf : ℕ → UInt8) (size : UInt32) : (simplefsWrite sb parentInodeIdx name buf size).run io =
      SimpleFs.simplefsWrite io sb parentInodeIdx name buf size := by
  unfold simplefsWrite SimpleFs.simplefsWrite
  simp only [run_ite, run_bind, run_readInode, run_writeInode, run_simplefsLookup, run_writeLoop,
    run_pure]

theorem run_readLoop (fileInode : Inode) (n i : ℕ) (bytesLeft : UInt32) :
    (readLoop fileInode n i bytesLeft).run io =
      (SimpleFs.readLoop io fileInode n i bytesLeft, io) := by
  induction n generalizing i bytesLeft with
  | zero => rfl
  | succ n ih =>
      rw [readLoop, SimpleFs.readLoop]
      simp only [run_bind, run_ite, run_readSector, run_pure, ih]
      split_ifs <;> rfl

@[simp] theorem run_simplefsRead (parentInodeIdx : UInt32) (name : CStr) (size : UInt32) :
    (simplefsRead parentInodeIdx name size).run io =
      (SimpleFs.simplefsRead io parentInodeIdx name size, io) := by
  unfold simplefsRead SimpleFs.simplefsRead
  simp only [run_ite, run_bind, run_readInode, run_simplefsLookup, run_readLoop, run_pure]
  split_ifs <;> rfl

/-! ### The sectors they use -/

variable {io : Io} {sb : Superblock}

@[simp] theorem inRange_pure {α : Type} (a : α) : (pure a : DiskProg α).InRange io := trivial

theorem inRange_ite {α : Type} {c : Prop} [Decidable c] {p q : DiskProg α}
    (hp : c → p.InRange io) (hq : ¬ c → q.InRange io) : (if c then p else q).InRange io := by
  split_ifs with h
  · exact hp h
  · exact hq h

theorem inRange_readSector {lba : UInt32} (h : lba.toNat < 2 ^ 28) : (readSector lba).InRange io :=
  ⟨h, trivial⟩

theorem inRange_writeSector {purpose : Purpose} {lba : UInt32} {buffer : Sector}
    (h : lba.toNat < 2 ^ 28) : (writeSector purpose lba buffer).InRange io :=
  ⟨h, trivial⟩

theorem table_lt {sec : ℕ} (h : sec ∈ List.range' INODE_START_SECTOR INODE_SECTORS) :
    (UInt32.ofNat sec).toNat < 2 ^ 28 := by
  obtain ⟨-, h'⟩ := List.mem_range'_1.1 h
  rw [ofNat_sector h]
  exact h'.trans (by decide)

theorem inodeSector_lt {inodeIdx : UInt32} (h : inodeIdx.toNat < 64) :
    (inodeSector inodeIdx).toNat < 2 ^ 28 := by
  rw [inodeSector_toNat]
  show inodeIdx.toNat / 4 + 1 < 2 ^ 28
  omega

theorem inRange_readInode {inodeIdx : UInt32} (h : inodeIdx.toNat < 64) :
    (readInode inodeIdx).InRange io := by
  rw [readInode, inRange_bind]
  exact ⟨inRange_readSector (inodeSector_lt h), trivial⟩

theorem inRange_writeInode {inodeIdx : UInt32} (h : inodeIdx.toNat < 64) (inode : Inode) :
    (writeInode inodeIdx inode).InRange io := by
  rw [writeInode, inRange_bind]
  exact ⟨inRange_readSector (inodeSector_lt h), inRange_writeSector (inodeSector_lt h)⟩

theorem inRange_clearInodes {secs : List ℕ}
    (h : ∀ sec ∈ secs, (UInt32.ofNat sec).toNat < 2 ^ 28) : (clearInodes secs).InRange io := by
  induction secs generalizing io with
  | nil => trivial
  | cons sec secs ih =>
      rw [clearInodes, inRange_bind]
      exact ⟨inRange_writeSector (h sec List.mem_cons_self),
        ih fun s hs => h s (List.mem_cons_of_mem _ hs)⟩

theorem inRange_simplefsInit : simplefsInit.InRange io := by
  unfold simplefsInit formatDisk
  rw [inRange_bind]
  refine ⟨inRange_readSector (by decide), inRange_ite (fun _ => ?_) fun _ => trivial⟩
  simp only [inRange_bind]
  exact ⟨inRange_writeSector (by decide), inRange_clearInodes fun sec => table_lt,
    inRange_writeSector (by decide), inRange_writeSector (by decide), trivial⟩

theorem inRange_findFreeInode {secs : List ℕ}
    (h : ∀ sec ∈ secs, (UInt32.ofNat sec).toNat < 2 ^ 28) : (findFreeInode secs).InRange io := by
  induction secs with
  | nil => trivial
  | cons sec secs ih =>
      rw [findFreeInode, inRange_bind]
      refine ⟨inRange_readSector (h sec List.mem_cons_self), ?_⟩
      split
      · trivial
      · exact ih fun s hs => h s (List.mem_cons_of_mem _ hs)

theorem inRange_allocateFreeInode (flags : UInt32) : (allocateFreeInode flags).InRange io := by
  rw [allocateFreeInode, inRange_bind, run_findFreeInode io fun sec => ofNat_sector]
  refine ⟨inRange_findFreeInode fun sec => table_lt, ?_⟩
  dsimp only
  split
  · trivial
  · next targetSector targetIndex hf =>
      obtain ⟨h1, h2, -⟩ := @SimpleFs.findFreeInode_some io _ _ hf
      have hlt : (UInt32.ofNat targetSector).toNat < 2 ^ 28 := by
        rw [UInt32.toNat_ofNat']
        omega
      simp only [inRange_bind]
      exact ⟨inRange_readSector hlt, inRange_writeSector hlt, trivial⟩

theorem inRange_simplefsGetInode (inodeIdx : UInt32) : (simplefsGetInode inodeIdx).InRange io := by
  unfold simplefsGetInode
  refine inRange_ite (fun _ => trivial) fun h => ?_
  rw [inRange_bind]
  exact ⟨inRange_readInode (not_le.1 h), trivial⟩

theorem inRange_isBlockUsed (blockNum : UInt32) {secs : List ℕ}
    (h : ∀ sec ∈ secs, (UInt32.ofNat sec).toNat < 2 ^ 28) :
    (isBlockUsed blockNum secs).InRange io := by
  induction secs with
  | nil => trivial
  | cons sec secs ih =>
      rw [isBlockUsed, inRange_bind]
      exact ⟨inRange_readSector (h sec List.mem_cons_self),
        inRange_ite (fun _ => trivial) fun _ => ih fun s hs => h s (List.mem_cons_of_mem _ hs)⟩

theorem inRange_findFreeDataBlock (sb : Superblock) : (findFreeDataBlock sb).InRange io := by
  unfold findFreeDataBlock
  generalize INODE_COUNT * DIRECT_BLOCKS + 1 = fuel
  generalize sb.dataBlockStart = candidate
  induction fuel generalizing candidate with
  | zero => trivial
  | succ fuel ih =>
      rw [findFreeFrom, inRange_bind, run_isBlockUsed io candidate fun sec => ofNat_sector]
      exact ⟨inRange_isBlockUsed _ fun sec => table_lt,
        inRange_ite (fun _ => ih _) fun _ => trivial⟩

/-- The inode can be read, and the directory table if it has one. -/
structure Readable (d : Disk) (k : ℕ) : Prop where
  lt : k < 64
  table : (SimpleFs.inodeAt d k).isDir = true → SimpleFs.dirBlock d k < 2 ^ 28

theorem inRange_simplefsLookup {dirInodeIdx : UInt32} (h : Readable io.disk dirInodeIdx.toNat)
    (name : CStr) : (simplefsLookup dirInodeIdx name).InRange io := by
  rw [simplefsLookup, inRange_bind, run_readInode, SimpleFs.readInode_eq]
  refine ⟨inRange_readInode h.lt, inRange_ite (fun _ => trivial) fun hdir => ?_⟩
  rw [inRange_bind]
  refine ⟨inRange_readSector (h.table (by simpa using hdir)), ?_⟩
  dsimp only
  split <;> trivial

theorem inRange_simplefsGetDirentry {dirInodeIdx : UInt32}
    (h : Readable io.disk dirInodeIdx.toNat) (index : ℤ) :
    (simplefsGetDirentry dirInodeIdx index).InRange io := by
  refine inRange_ite (fun _ => trivial) fun _ => ?_
  rw [inRange_bind, run_readInode, SimpleFs.readInode_eq]
  refine ⟨inRange_readInode h.lt, inRange_ite (fun _ => trivial) fun hdir => ?_⟩
  rw [inRange_bind]
  exact ⟨inRange_readSector (h.table (by simpa using hdir)),
    inRange_ite (fun _ => trivial) fun _ => trivial⟩

theorem inRange_addDirEntry {dirBlockNum : UInt32} (h : dirBlockNum.toNat < 2 ^ 28)
    (inodeIdx : UInt32) (name : CStr) : (addDirEntry dirBlockNum inodeIdx name).InRange io := by
  rw [addDirEntry, inRange_bind]
  refine ⟨inRange_readSector h, ?_⟩
  split
  · trivial
  · rw [inRange_bind]
    exact ⟨inRange_writeSector h, trivial⟩

theorem inRange_simplefsCreate {parentInodeIdx : UInt32}
    (h : Readable io.disk parentInodeIdx.toNat) (name : CStr) :
    (simplefsCreate parentInodeIdx name).InRange io := by
  refine inRange_ite (fun _ => trivial) fun _ => ?_
  rw [inRange_bind, run_readInode, SimpleFs.readInode_eq]
  refine ⟨inRange_readInode h.lt, inRange_ite (fun _ => trivial) fun hdir => ?_⟩
  rw [inRange_bind]
  refine ⟨inRange_simplefsLookup h name, inRange_ite (fun _ => trivial) fun _ => ?_⟩
  rw [inRange_bind]
  refine ⟨inRange_allocateFreeInode _, inRange_ite (fun _ => trivial) fun _ => ?_⟩
  rw [inRange_bind]
  exact ⟨inRange_addDirEntry (h.table (by simpa using hdir)) _ name,
    inRange_ite (fun _ => trivial) fun _ => trivial⟩

/-- The inode that is allocated has a number in the table. -/
theorem allocateFreeInode_lt (io : Io) (flags : UInt32)
    (h : (SimpleFs.allocateFreeInode io flags).1 ≠ -1) :
    (cUInt (SimpleFs.allocateFreeInode io flags).1).toNat < 64 := by
  obtain ⟨ha, -⟩ | ⟨k, hk, -, ha⟩ := SimpleFs.allocateFreeInode_cases io flags
  · rw [ha] at h
    exact absurd rfl h
  · rw [ha, SimpleFs.cUInt_natCast, SimpleFs.toNat_ofNat_lt hk]
    exact hk

theorem findFreeDataBlock_lt (io : Io) (hsb : sb.dataBlockStart = 17) :
    (SimpleFs.findFreeDataBlock io sb).toNat < 2 ^ 28 :=
  (SimpleFs.findFreeDataBlock_range io hsb).2.trans (by decide)

theorem inRange_simplefsMkdir (hsb : sb.dataBlockStart = 17) {parentInodeIdx : UInt32}
    (h : Readable io.disk parentInodeIdx.toNat) (name : CStr) :
    (simplefsMkdir sb parentInodeIdx name).InRange io := by
  refine inRange_ite (fun _ => trivial) fun _ => ?_
  rw [inRange_bind, run_readInode, SimpleFs.readInode_eq]
  refine ⟨inRange_readInode h.lt, inRange_ite (fun _ => trivial) fun hdir => ?_⟩
  rw [inRange_bind]
  refine ⟨inRange_simplefsLookup h name, inRange_ite (fun _ => trivial) fun _ => ?_⟩
  rw [inRange_bind, run_simplefsLookup, run_allocateFreeInode]
  refine ⟨inRange_allocateFreeInode _, inRange_ite (fun _ => trivial) fun hk => ?_⟩
  have hlt := allocateFreeInode_lt io _ hk
  simp only [inRange_bind, run_findFreeDataBlock]
  exact ⟨inRange_findFreeDataBlock sb, inRange_writeSector (findFreeDataBlock_lt _ hsb),
    inRange_readInode hlt, inRange_writeInode hlt _,
    inRange_addDirEntry (h.table (by simpa using hdir)) _ name,
    inRange_ite (fun _ => trivial) fun _ => trivial⟩

theorem inRange_writeLoop (hsb : sb.dataBlockStart = 17) {fileInodeIdx : UInt32}
    (hk : fileInodeIdx.toNat < 64) (buf : ℕ → UInt8) (n i : ℕ) (fileInode : Inode)
    (hblocks : ∀ j, (fileInode.block j).toNat < 2 ^ 28) (bytesLeft : UInt32) :
    (writeLoop sb fileInodeIdx buf n i fileInode bytesLeft).InRange io := by
  induction n generalizing io i fileInode bytesLeft with
  | zero => trivial
  | succ n ih =>
      have hset : ∀ j,
          ((fileInode.setBlock i (SimpleFs.findFreeDataBlock io sb)).block j).toNat < 2 ^ 28 := by
        intro j
        unfold Inode.setBlock Inode.block
        dsimp only
        split_ifs with hj hi
        · exact findFreeDataBlock_lt io hsb
        · have := hblocks j
          rwa [Inode.block, dif_pos hj] at this
        · decide
      have hensure : ∀ j,
          ((SimpleFs.ensureBlock io sb fileInodeIdx fileInode i).2.block j).toNat < 2 ^ 28 := by
        unfold SimpleFs.ensureBlock
        split_ifs
        · exact hset
        · exact hblocks
      rw [writeLoop, inRange_bind, run_takeBlock, inRange_bind]
      refine ⟨inRange_ite (fun _ => trivial) fun _ => ?_, inRange_writeSector (hensure i),
        ih _ _ hensure _⟩
      simp only [inRange_bind, run_findFreeDataBlock]
      exact ⟨inRange_findFreeDataBlock sb, inRange_writeInode hk _, trivial⟩

theorem inRange_simplefsWrite (hsb : sb.dataBlockStart = 17) {parentInodeIdx : UInt32}
    {name : CStr} (h : Readable io.disk parentInodeIdx.toNat)
    (hfile : SimpleFs.simplefsLookup io parentInodeIdx name ≠ -1 →
      (cUInt (SimpleFs.simplefsLookup io parentInodeIdx name)).toNat < 64 ∧ ∀ j,
        ((SimpleFs.inodeAt io.disk
          (cUInt (SimpleFs.simplefsLookup io parentInodeIdx name)).toNat).block j).toNat < 2 ^ 28)
    (buf : ℕ → UInt8) (size : UInt32) :
    (simplefsWrite sb parentInodeIdx name buf size).InRange io := by
  rw [simplefsWrite, inRange_bind, run_simplefsLookup]
  refine ⟨inRange_simplefsLookup h name, inRange_ite (fun _ => trivial) fun hne => ?_⟩
  obtain ⟨hk, hblocks⟩ := hfile hne
  refine inRange_ite (fun _ => trivial) fun _ => ?_
  simp only [inRange_bind, run_readInode]
  exact ⟨inRange_readInode hk, inRange_writeLoop hsb hk buf _ 0 _ hblocks size,
    inRange_writeInode hk _, trivial⟩

theorem inRange_readLoop {fileInode : Inode} (hblocks : ∀ j, (fileInode.block j).toNat < 2 ^ 28)
    (n i : ℕ) (bytesLeft : UInt32) : (readLoop fileInode n i bytesLeft).InRange io := by
  induction n generalizing i bytesLeft with
  | zero => trivial
  | succ n ih =>
      refine inRange_ite (fun _ => trivial) fun _ => ?_
      simp only [inRange_bind]
      exact ⟨inRange_readSector (hblocks i), ih _ _, trivial⟩

theorem inRange_simplefsRead {parentInodeIdx : UInt32} {name : CStr}
    (h : Readable io.disk parentInodeIdx.toNat)
    (hfile : SimpleFs.simplefsLookup io parentInodeIdx name ≠ -1 →
      (cUInt (SimpleFs.simplefsLookup io parentInodeIdx name)).toNat < 64 ∧ ∀ j,
        ((SimpleFs.inodeAt io.disk
          (cUInt (SimpleFs.simplefsLookup io parentInodeIdx name)).toNat).block j).toNat < 2 ^ 28)
    (size : UInt32) : (simplefsRead parentInodeIdx name size).InRange io := by
  rw [simplefsRead, inRange_bind, run_simplefsLookup]
  refine ⟨inRange_simplefsLookup h name, inRange_ite (fun _ => trivial) fun hne => ?_⟩
  obtain ⟨hk, hblocks⟩ := hfile hne
  rw [inRange_bind, run_readInode]
  refine ⟨inRange_readInode hk, inRange_ite (fun _ => trivial) fun _ => ?_⟩
  rw [inRange_bind]
  exact ⟨inRange_readLoop hblocks _ _ _, trivial⟩

end DiskProg

end NosmeriOs.Ata
