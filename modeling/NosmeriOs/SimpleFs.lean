import NosmeriOs.Bytes

/-! # The on-disk file system (`fs/simplefs.cpp`)

A disk is an array of 512-byte sectors.  Sector `0` is the superblock, sectors `1 … 16` hold
the 64 inodes (four 128-byte inodes a sector), sectors from `17` on are data blocks.  A
directory's first block is a table of sixteen 32-byte entries.

* **Device.**  `Io` is the disk together with the log of all sector writes issued so far.
  Every write carries the purpose the code issues it for (`Purpose`), so that statements
  about crashes are statements about prefixes of the log.  `ata_read_sector` and
  `ata_write_sector` are taken as error-free and atomic.
* **Types.**  `unsigned int` is `UInt32` (wrapping), `int` is `ℤ` (`cInt`, `cUInt` convert),
  a `const char*` argument is a `CStr`.
* **Static state.**  The in-memory copy `sb` of the superblock is an argument of the
  functions that read it; only `simplefsInit` sets it.
* **Loops.**  `find_free_data_block` has no bound in the source; `findFreeFrom` has a
  fuel of one more than the number of block slots in the inode table, which always
  suffices (`NosmeriOs.SimpleFs.isBlockUsed_findFreeDataBlock`). -/

namespace NosmeriOs.SimpleFs

open Bytes

/-! ### Layout -/

def MAGIC : UInt32 := 0x50435231
def INODE_USED : UInt32 := 0b01
def INODE_DIR : UInt32 := 0b10
def TOTAL_SECTORS : ℕ := 32768
def SUPERBLOCK_SECTOR : ℕ := 0
def INODE_START_SECTOR : ℕ := 1
def INODE_COUNT : ℕ := 64
def INODES_PER_SECTOR : ℕ := 4
def INODE_SECTORS : ℕ := INODE_COUNT / INODES_PER_SECTOR
def DATA_START_SECTOR : ℕ := INODE_START_SECTOR + INODE_SECTORS
def DIRECT_BLOCKS : ℕ := 30
def MAX_FILENAME : ℕ := 28
def ENTRIES_PER_BLOCK : ℕ := 16

abbrev Sector := Buf 512

/-- Sectors by number. -/
abbrev Disk := ℕ → Sector

structure Superblock where
  magic : UInt32
  totalSectors : UInt32
  inodeCount : UInt32
  dataBlockStart : UInt32
deriving DecidableEq

structure Inode where
  size : UInt32
  flags : UInt32
  blocks : Fin DIRECT_BLOCKS → UInt32
deriving DecidableEq

structure DirEntry where
  inodeIdx : UInt32
  filename : Buf MAX_FILENAME
deriving DecidableEq

namespace Inode

/-- `inode.blocks[i]` (`0` outside the array). -/
def block (n : Inode) (i : ℕ) : UInt32 := if h : i < DIRECT_BLOCKS then n.blocks ⟨i, h⟩ else 0

/-- `inode.blocks[i] = b`. -/
def setBlock (n : Inode) (i : ℕ) (b : UInt32) : Inode :=
  { n with blocks := fun j => if j.val = i then b else n.blocks j }

/-- The 32-bit fields of the packed structure, in order. -/
def field (n : Inode) : ℕ → UInt32
  | 0 => n.size
  | 1 => n.flags
  | i + 2 => n.block i

/-- Byte `k` of the packed structure. -/
def byteAt (n : Inode) (k : ℕ) : UInt8 := leByte (n.field (k / 4)) (k % 4)

/-- `inode.flags & INODE_USED`. -/
def isUsed (n : Inode) : Bool := n.flags &&& INODE_USED != 0

/-- `inode.flags & INODE_DIR`. -/
def isDir (n : Inode) : Bool := n.flags &&& INODE_DIR != 0

/-- The inode `allocate_free_inode` stores: empty, with the given flags. -/
def fresh (flags : UInt32) : Inode := ⟨0, flags, fun _ => 0⟩

end Inode

namespace DirEntry

/-- Byte `k` of the packed structure. -/
def byteAt (e : DirEntry) (k : ℕ) : UInt8 :=
  if k < 4 then leByte e.inodeIdx k else e.filename.get (k - 4)

/-- `entry.filename[0] != '\0'`. -/
def isPresent (e : DirEntry) : Bool := e.filename.get 0 != 0

/-- The file name as a C string. -/
def name (e : DirEntry) : CStr := CStr.ofMem MAX_FILENAME e.filename.get

end DirEntry

/-- `*(Superblock*)buffer`. -/
def getSuperblock (s : Sector) : Superblock := ⟨s.word 0, s.word 4, s.word 8, s.word 12⟩

/-- The 32-bit fields of the packed superblock, in order. -/
def Superblock.field (sb : Superblock) : ℕ → UInt32
  | 0 => sb.magic
  | 1 => sb.totalSectors
  | 2 => sb.inodeCount
  | _ => sb.dataBlockStart

/-- Byte `k` of the packed superblock. -/
def Superblock.byteAt (sb : Superblock) (k : ℕ) : UInt8 := leByte (sb.field (k / 4)) (k % 4)

/-- `((Inode*)buffer)[i]`. -/
def getInode (s : Sector) (i : ℕ) : Inode :=
  ⟨s.word (128 * i), s.word (128 * i + 4), fun j => s.word (128 * i + 8 + 4 * j)⟩

/-- `((Inode*)buffer)[i] = n`. -/
def setInode (s : Sector) (i : ℕ) (n : Inode) : Sector := s.blit (128 * i) 128 n.byteAt

/-- `((DirEntry*)buffer)[i]`. -/
def getEntry (s : Sector) (i : ℕ) : DirEntry :=
  ⟨s.word (32 * i), Buf.ofFn fun k => s.get (32 * i + 4 + k)⟩

/-- `((DirEntry*)buffer)[i] = e`. -/
def setEntry (s : Sector) (i : ℕ) (e : DirEntry) : Sector := s.blit (32 * i) 32 e.byteAt

/-! ### Conversions between `int` and `unsigned int` -/

/-- `(int)w`. -/
def cInt (w : UInt32) : ℤ := w.toBitVec.toInt

/-- `(unsigned int)i`. -/
def cUInt (i : ℤ) : UInt32 := ⟨BitVec.ofInt 32 i⟩

@[simp] theorem cUInt_cInt (w : UInt32) : cUInt (cInt w) = w := by
  simp [cUInt, cInt]

/-! ### The device -/

/-- What a sector write is issued for. -/
inductive Purpose where
  | superblock
  | inodeTable
  | dirTable
  | data
deriving DecidableEq, Repr

structure SectorWrite where
  purpose : Purpose
  lba : ℕ
  sector : Sector

/-- The disk and all the writes issued so far, oldest first. -/
structure Io where
  disk : Disk
  log : List SectorWrite

def ataReadSector (io : Io) (lba : ℕ) : Sector := io.disk lba

def ataWriteSector (io : Io) (purpose : Purpose) (lba : ℕ) (buffer : Sector) : Io :=
  ⟨Function.update io.disk lba buffer, io.log ++ [⟨purpose, lba, buffer⟩]⟩

/-! ### Mounting and formatting -/

/-- The superblock a format writes. -/
def formatSuperblock : Superblock :=
  ⟨MAGIC, UInt32.ofNat TOTAL_SECTORS, UInt32.ofNat INODE_COUNT, UInt32.ofNat DATA_START_SECTOR⟩

/-- The root inode a format writes. -/
def rootInode : Inode :=
  (Inode.fresh (INODE_USED ||| INODE_DIR)).setBlock 0 formatSuperblock.dataBlockStart

/-- `"."`. -/
def dot : CStr := ⟨[46], by decide⟩

/-- `".."`. -/
def dotdot : CStr := ⟨[46, 46], by decide⟩

/-- A directory entry whose name is stored by `memcpy(filename, name, strlen(name) + 1)` over
the bytes `old`. -/
def mkEntry (old : Buf MAX_FILENAME) (inodeIdx : UInt32) (name : CStr) : DirEntry :=
  ⟨inodeIdx, old.blit 0 (name.strlen + 1) name.byteAt⟩

/-- The table of a new directory: `.` and `..`, all other slots empty. -/
def newTable (self parent : UInt32) : Sector :=
  setEntry (setEntry Buf.zero 0 (mkEntry Buf.zero self dot)) 1 (mkEntry Buf.zero parent dotdot)

/-- The condition under which `simplefs_init` formats. -/
def needsFormat (d : Disk) : Bool :=
  (getSuperblock (d SUPERBLOCK_SECTOR)).magic != MAGIC ||
    (getSuperblock (d SUPERBLOCK_SECTOR)).totalSectors == 0

/-- The format branch of `simplefs_init`: the superblock, the cleared inode table, the root
inode, the root table. -/
def formatDisk (io : Io) : Io :=
  let io := ataWriteSector io .superblock SUPERBLOCK_SECTOR
    (Buf.zero.blit 0 16 formatSuperblock.byteAt)
  let io := (List.range' INODE_START_SECTOR INODE_SECTORS).foldl
    (fun io sec => ataWriteSector io .inodeTable sec Buf.zero) io
  let io := ataWriteSector io .inodeTable INODE_START_SECTOR (setInode Buf.zero 0 rootInode)
  ataWriteSector io .dirTable formatSuperblock.dataBlockStart.toNat (newTable 0 0)

/-- `simplefs_init`: the device afterwards and the in-memory superblock. -/
def simplefsInit (io : Io) : Io × Superblock :=
  if needsFormat io.disk then (formatDisk io, formatSuperblock)
  else (io, getSuperblock (ataReadSector io SUPERBLOCK_SECTOR))

/-! ### Inodes -/

def readInode (io : Io) (inodeIdx : UInt32) : Inode :=
  getInode (ataReadSector io (inodeIdx.toNat / INODES_PER_SECTOR + INODE_START_SECTOR))
    (inodeIdx.toNat % INODES_PER_SECTOR)

def writeInode (io : Io) (inodeIdx : UInt32) (inode : Inode) : Io :=
  let targetSector := inodeIdx.toNat / INODES_PER_SECTOR + INODE_START_SECTOR
  let targetIndex := inodeIdx.toNat % INODES_PER_SECTOR
  ataWriteSector io .inodeTable targetSector
    (setInode (ataReadSector io targetSector) targetIndex inode)

/-- The scan of `allocate_free_inode`: sector and position of the first inode not in use. -/
def findFreeInode (io : Io) : Option (ℕ × ℕ) :=
  (List.range' INODE_START_SECTOR INODE_SECTORS).findSome? fun sec =>
    (List.range INODES_PER_SECTOR).findSome? fun i =>
      if !(getInode (ataReadSector io sec) i).isUsed then some (sec, i) else none

def allocateFreeInode (io : Io) (flags : UInt32) : ℤ × Io :=
  match findFreeInode io with
  | none => (-1, io)
  | some (targetSector, targetIndex) =>
      (((targetSector - INODE_START_SECTOR) * INODES_PER_SECTOR + targetIndex : ℕ),
        ataWriteSector io .inodeTable targetSector
          (setInode (ataReadSector io targetSector) targetIndex (Inode.fresh flags)))

def simplefsGetInode (io : Io) (inodeIdx : UInt32) : Option Inode :=
  if INODE_COUNT ≤ inodeIdx.toNat then none else some (readInode io inodeIdx)

/-! ### Data blocks -/

def isBlockUsed (io : Io) (blockNum : UInt32) : Bool :=
  (List.range' INODE_START_SECTOR INODE_SECTORS).any fun sec =>
    (List.range INODES_PER_SECTOR).any fun i =>
      (getInode (ataReadSector io sec) i).isUsed &&
        (List.range DIRECT_BLOCKS).any fun j =>
          (getInode (ataReadSector io sec) i).block j == blockNum

/-- `for (; used(candidate); candidate++);` with an explicit bound on the iterations. -/
def findFreeFrom (used : UInt32 → Bool) : ℕ → UInt32 → UInt32
  | 0, candidate => candidate
  | fuel + 1, candidate =>
      if used candidate then findFreeFrom used fuel (candidate + 1) else candidate

def findFreeDataBlock (io : Io) (sb : Superblock) : UInt32 :=
  findFreeFrom (isBlockUsed io) (INODE_COUNT * DIRECT_BLOCKS + 1) sb.dataBlockStart

/-! ### Directories -/

def simplefsLookup (io : Io) (dirInodeIdx : UInt32) (name : CStr) : ℤ :=
  let inode := readInode io dirInodeIdx
  if !inode.isDir then -1
  else
    let buffer := ataReadSector io (inode.block 0).toNat
    match (List.range ENTRIES_PER_BLOCK).find? fun i =>
        (getEntry buffer i).isPresent &&
          CStr.strcmp (fun k => buffer.get (32 * i + 4 + k)) name == 0 with
    | some i => cInt (getEntry buffer i).inodeIdx
    | none => -1

def simplefsGetDirentry (io : Io) (dirInodeIdx : UInt32) (index : ℤ) : Option DirEntry :=
  if index < 0 ∨ (ENTRIES_PER_BLOCK : ℤ) ≤ index then none
  else
    let inode := readInode io dirInodeIdx
    if !inode.isDir then none
    else
      let entry := getEntry (ataReadSector io (inode.block 0).toNat) index.toNat
      if !entry.isPresent then none else some entry

def addDirEntry (io : Io) (dirBlockNum : UInt32) (inodeIdx : UInt32) (name : CStr) : ℤ × Io :=
  let table := ataReadSector io dirBlockNum.toNat
  match (List.range ENTRIES_PER_BLOCK).find? fun i => !(getEntry table i).isPresent with
  | none => (-1, io)
  | some i => (0, ataWriteSector io .dirTable dirBlockNum.toNat
      (setEntry table i (mkEntry (getEntry table i).filename inodeIdx name)))

def simplefsCreate (io : Io) (parentInodeIdx : UInt32) (name : CStr) : ℤ × Io :=
  if MAX_FILENAME ≤ name.strlen ∨ name.strlen = 0 then (-1, io)
  else
    let parentInode := readInode io parentInodeIdx
    if !parentInode.isDir then (-1, io)
    else if simplefsLookup io parentInodeIdx name ≠ -1 then (-1, io)
    else
      let (targetInodeIdx, io) := allocateFreeInode io INODE_USED
      if targetInodeIdx = -1 then (-1, io)
      else
        let (r, io) := addDirEntry io (parentInode.block 0) (cUInt targetInodeIdx) name
        if r ≠ 0 then (-1, io) else (0, io)

def simplefsMkdir (io : Io) (sb : Superblock) (parentInodeIdx : UInt32) (name : CStr) : ℤ × Io :=
  if MAX_FILENAME ≤ name.strlen ∨ name.strlen = 0 then (-1, io)
  else
    let parentInode := readInode io parentInodeIdx
    if !parentInode.isDir then (-1, io)
    else if simplefsLookup io parentInodeIdx name ≠ -1 then (-1, io)
    else
      let (targetInodeIdx, io) := allocateFreeInode io (INODE_USED ||| INODE_DIR)
      if targetInodeIdx = -1 then (-1, io)
      else
        let newDirBlock := findFreeDataBlock io sb
        let io := ataWriteSector io .dirTable newDirBlock.toNat
          (newTable (cUInt targetInodeIdx) parentInodeIdx)
        let newDirInode := (readInode io (cUInt targetInodeIdx)).setBlock 0 newDirBlock
        let io := writeInode io (cUInt targetInodeIdx) newDirInode
        let (r, io) := addDirEntry io (parentInode.block 0) (cUInt targetInodeIdx) name
        if r ≠ 0 then (-1, io) else (0, io)

/-! ### File contents -/

/-- The loop of `simplefs_write` with `n` iterations left, at block `i`. -/
def writeLoop (sb : Superblock) (fileInodeIdx : UInt32) (buf : ℕ → UInt8) :
    ℕ → ℕ → Io → Inode → UInt32 → Io × Inode
  | 0, _, io, fileInode, _ => (io, fileInode)
  | n + 1, i, io, fileInode, bytesLeft =>
      let (io, fileInode) :=
        if fileInode.block i = 0 then
          let fileInode := fileInode.setBlock i (findFreeDataBlock io sb)
          (writeInode io fileInodeIdx fileInode, fileInode)
        else (io, fileInode)
      let chunk := if 512 < bytesLeft then 512 else bytesLeft
      let buffer := Buf.zero.blit 0 chunk.toNat fun k => buf (i * 512 + k)
      let io := ataWriteSector io .data (fileInode.block i).toNat buffer
      writeLoop sb fileInodeIdx buf n (i + 1) io fileInode (bytesLeft - chunk)

def simplefsWrite (io : Io) (sb : Superblock) (parentInodeIdx : UInt32) (name : CStr)
    (buf : ℕ → UInt8) (size : UInt32) : ℤ × Io :=
  let fileInodeIdx := simplefsLookup io parentInodeIdx name
  if fileInodeIdx = -1 then (-1, io)
  else
    let neededBlocks := (size + 511) / 512
    if DIRECT_BLOCKS < neededBlocks.toNat then (-1, io)
    else
      let fileInode := readInode io (cUInt fileInodeIdx)
      let (io, fileInode) := writeLoop sb (cUInt fileInodeIdx) buf neededBlocks.toNat 0 io
        fileInode size
      (0, writeInode io (cUInt fileInodeIdx) { fileInode with size := size })

/-- The loop of `simplefs_read` with `n` iterations left, at block `i`: the bytes copied to
the caller's buffer, `none` if it indexes `blocks` outside the array. -/
def readLoop (io : Io) (fileInode : Inode) : ℕ → ℕ → UInt32 → Option (List UInt8)
  | 0, _, _ => some []
  | n + 1, i, bytesLeft =>
      if DIRECT_BLOCKS ≤ i then none
      else
        let chunk := if 512 < bytesLeft then 512 else bytesLeft
        let buffer := ataReadSector io (fileInode.block i).toNat
        (readLoop io fileInode n (i + 1) (bytesLeft - chunk)).map
          ((List.range chunk.toNat).map buffer.get ++ ·)

/-- `simplefs_read`: the returned value and the bytes stored at the start of the caller's
buffer; `none` if the code indexes `blocks` outside the array. -/
def simplefsRead (io : Io) (parentInodeIdx : UInt32) (name : CStr) (size : UInt32) :
    Option (ℤ × List UInt8) :=
  let fileInodeIdx := simplefsLookup io parentInodeIdx name
  if fileInodeIdx = -1 then some (-1, [])
  else
    let fileInode := readInode io (cUInt fileInodeIdx)
    if fileInode.isDir then some (-1, [])
    else
      let bytesToRead := if fileInode.size < size then fileInode.size else size
      let neededBlocks := (bytesToRead + 511) / 512
      (readLoop io fileInode neededBlocks.toNat 0 bytesToRead).map
        fun bytes => (cInt bytesToRead, bytes)

end NosmeriOs.SimpleFs
