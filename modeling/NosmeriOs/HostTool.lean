import NosmeriOs.SimpleFs

/-! # The host tool (`tools/simplefs_tool.py`)

The tool edits an image of the kernel's disk from outside, with an encoding and searches of its
own.

* **Image.**  The image file is as long as the disk, so it is a `Disk` again.  Sectors are
  written one by one and never rolled back: a method returns its result or exception together
  with the image it leaves.
* **Object.**  The three fields a `SimpleFS` object takes from the superblock are those of a
  `Superblock`; the commands `put` and `rm` of `main` open the image first.
* **Strings.**  A Python string is its list of code points (`PyStr`).
* The listing printed by `ls` is left out, and so is the default for `target_name`, which the
  command line resolves before anything is read. -/

namespace NosmeriOs.HostTool

open Bytes SimpleFs

/-- The exceptions the tool raises, with their messages. -/
inductive PyError where
  | fileNotFoundError (message : String)
  | valueError (message : String)
  | ioError (message : String)
  | indexError (message : String)
  | unicodeEncodeError
deriving DecidableEq

/-- A Python string: its code points. -/
abbrev PyStr := List ℕ

def PyStr.toString (s : PyStr) : String := String.ofList (s.map Char.ofNat)

/-- `hex(n)`. -/
def pyHex (n : ℕ) : String := "0x" ++ String.ofList (Nat.toDigits 16 n)

/-! ### Sectors and inodes -/

/-- `_write_sector` pads short data with zeros and cuts long data off. -/
def sectorOf (data : List UInt8) : Sector := Buf.ofFn fun k => data.getD k 0

def writeSector (d : Disk) (sectorNum : ℕ) (data : List UInt8) : Disk :=
  Function.update d sectorNum (sectorOf data)

def readSuperblock (d : Disk) : Except PyError Superblock :=
  let sb := getSuperblock (d SUPERBLOCK_SECTOR)
  if sb.magic ≠ MAGIC then
    .error (.valueError ("Invalid SimpleFS magic: " ++ pyHex sb.magic.toNat ++ " (expected " ++
      pyHex MAGIC.toNat ++ ")"))
  else .ok sb

/-- The 128 bytes `_read_inode` unpacks. -/
def inodeOf (d : Disk) (inodeIdx : ℕ) : Inode :=
  getInode (d (INODE_START_SECTOR + inodeIdx / INODES_PER_SECTOR)) (inodeIdx % INODES_PER_SECTOR)

def readInode (sb : Superblock) (d : Disk) (inodeIdx : ℕ) : Except PyError Inode :=
  if sb.inodeCount.toNat ≤ inodeIdx then .error (.indexError "Inode index out of bounds")
  else .ok (inodeOf d inodeIdx)

def writeInode (d : Disk) (inodeIdx : ℕ) (inode : Inode) : Disk :=
  let sec := INODE_START_SECTOR + inodeIdx / INODES_PER_SECTOR
  Function.update d sec
    ((d sec).blit (inodeIdx % INODES_PER_SECTOR * 128) 128 inode.byteAt)

/-- `inode["blocks"]` without the zeros. -/
def usedBlocks (inode : Inode) : List ℕ :=
  ((List.range DIRECT_BLOCKS).map fun j => (inode.block j).toNat).filter (· ≠ 0)

/-! ### Searches -/

/-- `_get_all_used_blocks`, as a list. -/
def getAllUsedBlocks (sb : Superblock) (d : Disk) : List ℕ :=
  (List.range sb.inodeCount.toNat).flatMap fun idx =>
    if (inodeOf d idx).isUsed then usedBlocks (inodeOf d idx) else []

def findFreeInode (sb : Superblock) (d : Disk) : Option ℕ :=
  (List.range' 1 (sb.inodeCount.toNat - 1)).find? fun idx => !(inodeOf d idx).isUsed

/-- The loop of `_find_free_blocks`, with the number of candidates left below
`total_sectors`. -/
def findFreeLoop (used : List ℕ) (count : ℕ) : ℕ → ℕ → List ℕ → List ℕ
  | 0, _, freeBlocks => freeBlocks
  | n + 1, candidate, freeBlocks =>
      if freeBlocks.length < count then
        findFreeLoop used count n (candidate + 1)
          (if candidate ∈ used then freeBlocks else freeBlocks ++ [candidate])
      else freeBlocks

def findFreeBlocks (sb : Superblock) (d : Disk) (count : ℕ) : Except PyError (List ℕ) :=
  let freeBlocks := findFreeLoop (getAllUsedBlocks sb d) count
    (sb.totalSectors.toNat - sb.dataBlockStart.toNat) sb.dataBlockStart.toNat []
  if freeBlocks.length < count then .error (.ioError "Disk full: no free data blocks available")
  else .ok freeBlocks

/-! ### The root directory -/

structure Entry where
  entryIdx : ℕ
  inodeIdx : ℕ
  name : PyStr
  isDir : Bool

/-- `raw[4:32].split(b'\x00')[0]`. -/
def nameBytes (buf : Sector) (i : ℕ) : List UInt8 :=
  ((List.range MAX_FILENAME).map fun k => buf.get (32 * i + 4 + k)).takeWhile (· ≠ 0)

/-- `.decode('ascii', errors='replace')`. -/
def decodeName (bytes : List UInt8) : PyStr :=
  bytes.map fun b => if b.toNat < 128 then b.toNat else 0xFFFD

/-- `.encode('ascii')`. -/
def encodeName (s : PyStr) : Except PyError (List UInt8) :=
  if s.all (· < 128) then .ok (s.map UInt8.ofNat) else .error .unicodeEncodeError

/-- The entries of `list_dir` from slot `i` on, with `n` slots left. -/
def listFrom (sb : Superblock) (d : Disk) (buf : Sector) : ℕ → ℕ → Except PyError (List Entry)
  | 0, _ => .ok []
  | n + 1, i =>
      if nameBytes buf i = [] then listFrom sb d buf n (i + 1)
      else do
        let inodeIdx := (buf.word (32 * i)).toNat
        let inode ← readInode sb d inodeIdx
        let rest ← listFrom sb d buf n (i + 1)
        .ok (⟨i, inodeIdx, decodeName (nameBytes buf i), inode.isDir⟩ :: rest)

def listDir (sb : Superblock) (d : Disk) (dirInodeIdx : ℕ) : Except PyError (List Entry) := do
  let dirInode ← readInode sb d dirInodeIdx
  if !dirInode.isDir then
    .error (.valueError ("Inode " ++ toString dirInodeIdx ++ " is not a directory"))
  else listFrom sb d (d (dirInode.block 0).toNat) ENTRIES_PER_BLOCK 0

/-- `next((e for e in entries if e["name"] == target_name), None)`. -/
def findEntry (entries : List Entry) (targetName : PyStr) : Option Entry :=
  entries.find? fun e => e.name = targetName

/-! ### `put_file` -/

/-- Chunk `i` of the file. -/
def chunk (fileData : List UInt8) (i : ℕ) : List UInt8 := (fileData.drop (i * 512)).take 512

/-- The data blocks, written in order from chunk `i` on. -/
def writeBlocks (fileData : List UInt8) : ℕ → List ℕ → Disk → Disk
  | _, [], d => d
  | i, b :: bs, d => writeBlocks fileData (i + 1) bs (writeSector d b (chunk fileData i))

/-- The inode `put_file` writes. -/
def fileInode (size : ℕ) (assignedBlocks : List ℕ) : Inode :=
  ⟨UInt32.ofNat size, INODE_USED, fun i => UInt32.ofNat (assignedBlocks.getD i 0)⟩

/-- The blocks for an existing file: its own ones in order, then new ones. -/
def overwriteBlocks (sb : Superblock) (d : Disk) (inodeIdx neededBlocks : ℕ) :
    Except PyError (List ℕ) := do
  let inode ← readInode sb d inodeIdx
  let currentBlocks := usedBlocks inode
  if currentBlocks.length < neededBlocks then
    let newBlocks ← findFreeBlocks sb d (neededBlocks - currentBlocks.length)
    .ok (currentBlocks ++ newBlocks)
  else .ok (currentBlocks.take neededBlocks)

/-- The data blocks and the inode. -/
def storeFile (d : Disk) (inodeIdx : ℕ) (assignedBlocks : List ℕ) (fileData : List UInt8) : Disk :=
  writeInode (writeBlocks fileData 0 assignedBlocks d) inodeIdx
    (fileInode fileData.length assignedBlocks)

/-- The 32 bytes of a directory entry. -/
def packEntry (inodeIdx : ℕ) (nameEncoded : List UInt8) (k : ℕ) : UInt8 :=
  if k < 4 then leByte (UInt32.ofNat inodeIdx) k else nameEncoded.getD (k - 4) 0

/-- The search for an empty slot of the root table, and the new entry. -/
def addRootEntry (sb : Superblock) (d : Disk) (inodeIdx : ℕ) (targetName : PyStr) :
    Except PyError Unit × Disk :=
  match readInode sb d 0 with
  | .error e => (.error e, d)
  | .ok rootInode =>
      let dirBlock := (rootInode.block 0).toNat
      let buf := d dirBlock
      match (List.range ENTRIES_PER_BLOCK).find? fun i => nameBytes buf i = [] with
      | none => (.error (.ioError "Root directory is full (max 16 entries)"), d)
      | some i =>
          match encodeName targetName with
          | .error e => (.error e, d)
          | .ok nameEncoded =>
              (.ok (), Function.update d dirBlock
                (buf.blit (32 * i) 32 (packEntry inodeIdx nameEncoded)))

/-- `put_file` after the checks of name and size. -/
def putData (sb : Superblock) (d : Disk) (fileData : List UInt8) (targetName : PyStr) :
    Except PyError Unit × Disk :=
  let neededBlocks := (fileData.length + 512 - 1) / 512
  match listDir sb d 0 with
  | .error e => (.error e, d)
  | .ok entries =>
      match findEntry entries targetName with
      | some targetEntry =>
          match overwriteBlocks sb d targetEntry.inodeIdx neededBlocks with
          | .error e => (.error e, d)
          | .ok assignedBlocks =>
              (.ok (), storeFile d targetEntry.inodeIdx assignedBlocks fileData)
      | none =>
          match findFreeInode sb d with
          | none => (.error (.ioError "No free Inodes available (max 64)"), d)
          | some inodeIdx =>
              match findFreeBlocks sb d neededBlocks with
              | .error e => (.error e, d)
              | .ok assignedBlocks =>
                  addRootEntry sb (storeFile d inodeIdx assignedBlocks fileData) inodeIdx targetName

/-- A file on the host: its path and, if it exists, its content. -/
structure HostFile where
  path : PyStr
  content : Option (List UInt8)

def putFile (sb : Superblock) (d : Disk) (hostFile : HostFile) (targetName : PyStr) :
    Except PyError Unit × Disk :=
  match hostFile.content with
  | none => (.error (.fileNotFoundError ("Host file not found: " ++ hostFile.path.toString)), d)
  | some fileData =>
      if MAX_FILENAME ≤ targetName.length then
        (.error (.valueError "Target name too long (max 27 chars)"), d)
      else if DIRECT_BLOCKS < (fileData.length + 512 - 1) / 512 then
        (.error (.valueError "File too large (max 15360 bytes)"), d)
      else putData sb d fileData targetName

/-! ### `rm_file` -/

/-- The empty inode, then the empty entry. -/
def clearFile (sb : Superblock) (d : Disk) (targetEntry : Entry) : Except PyError Unit × Disk :=
  let d := writeInode d targetEntry.inodeIdx (Inode.fresh 0)
  match readInode sb d 0 with
  | .error e => (.error e, d)
  | .ok rootInode =>
      let dirBlock := (rootInode.block 0).toNat
      (.ok (), Function.update d dirBlock
        ((d dirBlock).blit (32 * targetEntry.entryIdx) 32 fun _ => 0))

def rmFile (sb : Superblock) (d : Disk) (targetName : PyStr) : Except PyError Unit × Disk :=
  match listDir sb d 0 with
  | .error e => (.error e, d)
  | .ok entries =>
      match findEntry entries targetName with
      | none => (.error (.fileNotFoundError
          ("File '" ++ targetName.toString ++ "' not found in root dir")), d)
      | some targetEntry =>
          match readInode sb d targetEntry.inodeIdx with
          | .error e => (.error e, d)
          | .ok inode =>
              if inode.isDir then (.error (.valueError
                ("'" ++ targetName.toString ++ "' is a directory (use mkdir/rmdir)")), d)
              else clearFile sb d targetEntry

/-! ### The commands -/

/-- `with SimpleFS(disk_path) as fs: fs.put_file(host_file, target_name)`. -/
def put (d : Disk) (hostFile : HostFile) (targetName : PyStr) :
    Except PyError Unit × Disk :=
  match readSuperblock d with
  | .error e => (.error e, d)
  | .ok sb => putFile sb d hostFile targetName

/-- `with SimpleFS(disk_path) as fs: fs.rm_file(target_name)`. -/
def rm (d : Disk) (targetName : PyStr) : Except PyError Unit × Disk :=
  match readSuperblock d with
  | .error e => (.error e, d)
  | .ok sb => rmFile sb d targetName

end NosmeriOs.HostTool
