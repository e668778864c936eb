import NosmeriOs.Shell
import NosmeriOs.VfsGetPath

/-! # The shell on the file system (`shell/shell.cpp`)

The commands that work on files, the prompt, and `shell_main` key by key.

* `Files`: the mounted file system and the working directory of the shell's task.
* `Env`: what a key meets outside the file system, among it what the other commands print.
* `Shell.run`: what some keys print.  The outer `none` stands for an access outside a buffer. -/

namespace NosmeriOs.Shell

open Bytes SimpleFs Vfs

structure Files where
  io : Io
  sb : Superblock
  vfsRoot : VfsNode
  cwd : VfsNode

/-- After `vfs_init` and `init_tasking`. -/
def Files.init (d : Disk) : Files :=
  let (io, sb, vfsRoot) := vfsInit ⟨d, []⟩
  ⟨io, sb, vfsRoot, vfsRoot⟩

/-- `rest` is what the commands without files print, `block` what `kmalloc` gives to `cat` with the
bytes that lie there, and the buffers are what lies on the stack. -/
structure Env where
  rest : Command → CStr → List Output
  block : Option (ℕ → UInt8)
  pathBuf : ℤ → UInt8
  promptBuf : ℤ → UInt8

/-! ### Commands -/

def printDirEntries (io : Io) (dir : VfsNode) : List Output :=
  (List.range ENTRIES_PER_BLOCK).flatMap fun (i : ℕ) =>
    match vfsReaddir io dir i with
    | none => []
    | some entry =>
        shellPrint entry.name.bytes ::
          (if entry.isDirectory then [shellPrint (ascii "/")] else []) ++
            [shellPrint (ascii "\n")]

/-- `path_buffer`, in its 256 bytes. -/
def pathWord (arg : CStr) : CStr :=
  ⟨(arg.bytes.takeWhile (· ≠ 32)).take 255, fun h =>
    arg.noNul ((List.takeWhile_sublist _).subset (List.mem_of_mem_take h))⟩

/-- What `cat` prints of a file: the string that lies in the block after `vfs_read`. -/
def printFile (io : Io) (node : VfsNode) (block : Option (ℕ → UInt8)) : Option (List Output) :=
  match block with
  | none => some [shellPrint (ascii "Out of memory\n")]
  | some buf => (vfsRead io node node.size).map fun (_, bytes) =>
      let buf := fun k => if k < bytes.length then bytes.getD k 0 else buf k
      let buf := Function.update buf node.size.toNat 0
      [shellPrint (CStr.ofMem (node.size.toNat + 1) buf).bytes, shellPrintChar 10]

namespace Files

def resolve (s : Files) (path : CStr) : Option (Option VfsNode) :=
  vfsResolvePath s.io s.vfsRoot s.cwd path

/-- `sys_chdir`, that is `vfs_cd`. -/
def sysChdir (s : Files) (path : CStr) : Option (ℤ × Files) :=
  (s.resolve path).map fun
    | none => (-1, s)
    | some target => if !target.isDirectory then (-1, s) else (0, { s with cwd := target })

/-- `sys_getcwd` on the 256 bytes of `path_buf`, with what the call leaves there. -/
def sysGetcwd (s : Files) (buf : ℤ → UInt8) : ℤ × CStr :=
  let (ret, out) := vfsGetPathOut s.io s.cwd 256 buf
  (ret, CStr.ofMem 256 fun k : ℕ => out.bytes k)

/-- `cmd_touch` and `cmd_mkdir`, up to the call and the texts. -/
def creation (usage failed : List UInt8) (create : CStr → ℤ × Io) (s : Files) (arg : CStr) :
    List Output × Files :=
  let arg := skipSpaces arg
  if arg.bytes = [] then ([shellPrint usage], s)
  else
    let (result, io) := create arg
    (if result ≠ 0 then [shellPrint failed] else [], { s with io := io })

def cmdTouch (s : Files) (arg : CStr) : List Output × Files :=
  s.creation (ascii "Usage: touch <filename>\n")
    (ascii "Failed to create file (already exists or disk full)\n")
    (fun name =>
      let (result, io, _) := vfsCreate s.io s.cwd name
      (result, io)) arg

def cmdMkdir (s : Files) (arg : CStr) : List Output × Files :=
  s.creation (ascii "Usage: mkdir <dirname>\n")
    (ascii "Failed to create directory (already exists or disk full)\n")
    (fun name =>
      let (result, io, _) := vfsMkdir s.io s.sb s.cwd name
      (result, io)) arg

def cmdCd (s : Files) (arg : CStr) : Option (List Output × Files) :=
  let arg := skipSpaces arg
  if arg.bytes = [] then some ([shellPrint (ascii "Usage: cd <path>\n")], s)
  else (s.sysChdir arg).map fun (result, s) =>
    (if result ≠ 0 then [shellPrint (ascii "Directory not found\n")] else [], s)

def cmdLs (s : Files) (arg : CStr) : Option (List Output) :=
  let arg := skipSpaces arg
  if arg.bytes = [] then some (printDirEntries s.io s.cwd)
  else (s.resolve arg).map fun
    | none => [shellPrint (ascii "Directory not found\n")]
    | some node =>
        if !node.isDirectory then [shellPrint (ascii "Directory not found\n")]
        else printDirEntries s.io node

def cmdPwd (s : Files) (pathBuf : ℤ → UInt8) : List Output :=
  let (ret, path) := s.sysGetcwd pathBuf
  if ret = 0 then [shellPrint path.bytes, shellPrint (ascii "\n")]
  else [shellPrint (ascii "Error getting current directory\n")]

/-- What `write` does with the file under the path. -/
def writeFile (s : Files) (arg : CStr) : Option VfsNode → List Output × Files
  | none => ([shellPrint (ascii "File not found\n")], s)
  | some file =>
      let (result, io, _) := vfsWrite s.io s.sb file arg.byteAt (UInt32.ofNat arg.strlen)
      (if result = -1 then [shellPrint (ascii "Write failed\n")] else [], { s with io := io })

def cmdWrite (s : Files) (arg : CStr) : Option (List Output × Files) :=
  let arg := skipSpaces arg
  let path := pathWord arg
  let arg := skipSpaces (tailFrom arg path.strlen)
  if path.bytes = [] ∨ arg.bytes = [] then
    some ([shellPrint (ascii "Usage: write <file> <text>\n")], s)
  else (s.resolve path).map (s.writeFile arg)

def cmdCat (s : Files) (block : Option (ℕ → UInt8)) (arg : CStr) : Option (List Output) :=
  let arg := skipSpaces arg
  if arg.bytes = [] then some [shellPrint (ascii "Usage: cat <file>\n")]
  else (s.resolve arg).bind fun
    | none => some [shellPrint (ascii "File not found or is a directory\n")]
    | some node =>
        if node.isDirectory then some [shellPrint (ascii "File not found or is a directory\n")]
        else printFile s.io node block

/-- A handler: what it prints, and the files after it. -/
def handler (s : Files) (env : Env) (arg : CStr) : Command → Option (List Output × Files)
  | .touch => some (s.cmdTouch arg)
  | .mkdir => some (s.cmdMkdir arg)
  | .cd => s.cmdCd arg
  | .ls => (s.cmdLs arg).map (·, s)
  | .pwd => some (s.cmdPwd env.pathBuf, s)
  | .write => s.cmdWrite arg
  | .cat => (s.cmdCat env.block arg).map (·, s)
  | command => some (env.rest command arg, s)

end Files

/-! ### Keys -/

/-- `halted` is set by `cmd_fault`, which does not return. -/
structure State where
  line : Line
  files : Files
  halted : Bool

namespace State

/-- `execute_command`. -/
def execute (s : State) (env : Env) (cmd : CStr) : Option (List Output × State) :=
  match executeCommand cmd with
  | .nothing => some ([], s)
  | .unknown output => some (output, s)
  | .handler command arg => (s.files.handler env arg command).map fun (out, files) =>
      (out, { s with
        files := files
        halted := s.halted || command = .fault })

def printPrompt (s : State) (env : Env) : List Output :=
  [shellPrint (s.files.sysGetcwd env.promptBuf).2.bytes, shellPrint (ascii "$ ")]

/-- `shell_handle_key`, with the command that the key completes and the prompt after it. -/
def handleKey (s : State) (env : Env) (c : UInt8) : Option (List Output × State) :=
  if s.halted then some ([], s)
  else
    let (line, out, cmd) := shellHandleKey s.line c
    let s := { s with line := line }
    match cmd with
    | none => some (out, s)
    | some cmd => (s.execute env cmd).map fun (printed, s) =>
        (out ++ printed ++ if s.halted then [] else s.printPrompt env, s)

/-- The loop of `shell_main`, over the keys that `sys_read` delivers. -/
def run (s : State) : List (Env × UInt8) → Option (List Output × State)
  | [] => some ([], s)
  | (env, c) :: keys =>
      (s.handleKey env c).bind fun (out, s) =>
        (s.run keys).map fun (outs, s) => (out ++ outs, s)

/-- Before the first key.  The buffer of the line is not cleared. -/
def init (d : Disk) (inputBuffer : ℕ → UInt8) : State := ⟨⟨inputBuffer, 0⟩, Files.init d, false⟩

end State

/-- `shell_main`. -/
def shellMain (d : Disk) (inputBuffer : ℕ → UInt8) (env : Env) (keys : List (Env × UInt8)) :
    Option (List Output × State) :=
  let s := State.init d inputBuffer
  let welcome := shellPrint
    (ascii "Welcome to NOSMERI-OS! Type 'help' to see available commands.\n\n")
  (s.run keys).map fun (out, s') => (welcome :: s.printPrompt env ++ out, s')

end NosmeriOs.Shell
