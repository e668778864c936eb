import NosmeriOs.SimpleFs

/-! # The virtual file system (`fs/vfs.cpp`)

A `vfs_node` is a value: the name it was found under, its kind, its inode and the inode of
the directory it was found in.  Calls take nodes by pointer; the pointers are never null here,
and a node's `name[32]` is the C string it holds.  A call that returns `-1` leaves its
`out_node` alone, so results are `Option VfsNode`. -/

namespace NosmeriOs.Vfs

open Bytes SimpleFs

def VFS_FILE : UInt32 := 0b01
def VFS_DIRECTORY : UInt32 := 0b10

structure VfsNode where
  name : CStr
  flags : UInt32
  size : UInt32
  inodeIdx : UInt32
  parentIdx : UInt32
deriving DecidableEq

/-- `node.flags & VFS_DIRECTORY`. -/
def VfsNode.isDirectory (n : VfsNode) : Bool := n.flags &&& VFS_DIRECTORY != 0

/-- `"/"`. -/
def slash : CStr := ⟨[47], by decide⟩

/-- `vfs_init`: the mounted device, the in-memory superblock and `vfs_root`. -/
def vfsInit (io : Io) : Io × Superblock × VfsNode :=
  let (io, sb) := simplefsInit io
  let size := match simplefsGetInode io 0 with
    | some rootInode => rootInode.size
    | none => 0
  (io, sb, ⟨slash, VFS_DIRECTORY, size, 0, 0⟩)

/-- The node for an inode found in a directory under a name. -/
def nodeOf (name : CStr) (inodeIdx parentIdx : UInt32) (inode : Inode) : VfsNode :=
  ⟨name, if inode.isDir then VFS_DIRECTORY else VFS_FILE, inode.size, inodeIdx, parentIdx⟩

def vfsLookup (io : Io) (dirNode : VfsNode) (name : CStr) : Option VfsNode :=
  if !dirNode.isDirectory then none
  else if CStr.strcmp name.byteAt dot = 0 then some dirNode
  else
    let targetInodeIdx := simplefsLookup io dirNode.inodeIdx name
    if targetInodeIdx < 0 then none
    else (simplefsGetInode io (cUInt targetInodeIdx)).map fun targetInode =>
      nodeOf name (cUInt targetInodeIdx) dirNode.inodeIdx targetInode

/-- `vfs_create`: the returned value, the device, and the node stored when the caller passed
an `out_node`. -/
def vfsCreate (io : Io) (parent : VfsNode) (name : CStr) : ℤ × Io × Option VfsNode :=
  if (vfsLookup io parent name).isSome then (-1, io, none)
  else
    let (result, io) := simplefsCreate io parent.inodeIdx name
    if result < 0 then (-1, io, none) else (0, io, vfsLookup io parent name)

def vfsMkdir (io : Io) (sb : Superblock) (parent : VfsNode) (name : CStr) :
    ℤ × Io × Option VfsNode :=
  if (vfsLookup io parent name).isSome then (-1, io, none)
  else
    let (result, io) := simplefsMkdir io sb parent.inodeIdx name
    if result < 0 then (-1, io, none) else (0, io, vfsLookup io parent name)

/-- `vfs_write`: the returned value, the device and the node, whose size it updates. -/
def vfsWrite (io : Io) (sb : Superblock) (file : VfsNode) (buf : ℕ → UInt8) (size : UInt32) :
    ℤ × Io × VfsNode :=
  if file.isDirectory then (-1, io, file)
  else
    let (result, io) := simplefsWrite io sb file.parentIdx file.name buf size
    if result < 0 then (-1, io, file) else (result, io, { file with size := size })

def vfsRead (io : Io) (file : VfsNode) (size : UInt32) : Option (ℤ × List UInt8) :=
  if file.isDirectory then some (-1, []) else simplefsRead io file.parentIdx file.name size

/-- `vfs_readdir`.  The result of `simplefs_get_inode` is not checked in the source; an inode
number out of range leaves the local `inode` unset, which the model reads as empty. -/
def vfsReaddir (io : Io) (dir : VfsNode) (index : ℤ) : Option VfsNode :=
  if !dir.isDirectory then none
  else (simplefsGetDirentry io dir.inodeIdx index).map fun dirEntry =>
    nodeOf dirEntry.name dirEntry.inodeIdx dir.inodeIdx
      ((simplefsGetInode io dirEntry.inodeIdx).getD (Inode.fresh 0))

/-! ### Paths -/

def TOKEN_SIZE : ℕ := 256

/-- `token[n] = '\0'; resolve_step(&cur, token)`. -/
def resolveStep (io : Io) (cur : VfsNode) (token : List UInt8) : Option VfsNode :=
  vfsLookup io cur (CStr.ofMem token.length (token.getD · 0))

/-- The tokenizer of `vfs_resolve_path` at the rest of the path, with the bytes of the current
token.  The outer `none` stands for a write outside `token[256]`. -/
def resolveLoop (io : Io) : List UInt8 → VfsNode → List UInt8 → Option (Option VfsNode)
  | [], cur, token =>
      if token.length = 0 then some (some cur)
      else if TOKEN_SIZE ≤ token.length then none
      else some (resolveStep io cur token)
  | c :: rest, cur, token =>
      if c = 47 then
        if token.length = 0 then resolveLoop io rest cur []
        else if TOKEN_SIZE ≤ token.length then none
        else match resolveStep io cur token with
          | none => some none
          | some next => resolveLoop io rest next []
      else if TOKEN_SIZE ≤ token.length then none
      else resolveLoop io rest cur (token ++ [c])

/-- `vfs_resolve_path` with the working directory `currentDir`; the outer `none` stands for a
write outside `token[256]`. -/
def vfsResolvePath (io : Io) (vfsRoot currentDir : VfsNode) (path : CStr) :
    Option (Option VfsNode) :=
  match path.bytes with
  | [] => some (some currentDir)
  | c :: rest =>
      if c = 47 then resolveLoop io (rest.dropWhile (· = 47)) vfsRoot []
      else resolveLoop io (c :: rest) currentDir []

end NosmeriOs.Vfs
