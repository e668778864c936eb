import NosmeriOs.ShellFiles
import NosmeriOs.VfsTree

/-! # The shell on a directory tree

What the user of the shell sees, as commands on a desk of `DirTree`.

* `meaning`: the command that a handler stands for; `shown`: how an answer is printed.
* `Talks`: what the shell may print on some keys, in terms of the tree alone.
* `Files.Stands`: the disk stands for the tree.  `Stands.handler`: a handler prints what the command
  may be answered.
* `shellMain_talks`: whatever is typed, the shell prints what it may. -/

namespace NosmeriOs.Shell

open Bytes SimpleFs Vfs DirTree

abbrev FsDesk := DirTree.Desk ℕ CStr UInt8

/-! ### The user's view -/

inductive Meaning where
  | prints (out : List Output)
  | does (cmd : Cmd CStr UInt8)

/-- A handler that wants an argument. -/
def meaningOf (usage : List UInt8) (cmd : CStr → Cmd CStr UInt8) (arg : CStr) : Meaning :=
  if (skipSpaces arg).bytes = [] then .prints [shellPrint usage] else .does (cmd (skipSpaces arg))

/-- The text that `write` takes. -/
def writeText (arg : CStr) : CStr :=
  skipSpaces (tailFrom (skipSpaces arg) (pathWord (skipSpaces arg)).strlen)

def meaning (env : Env) (arg : CStr) : Command → Meaning
  | .touch => meaningOf (ascii "Usage: touch <filename>\n") .create arg
  | .mkdir => meaningOf (ascii "Usage: mkdir <dirname>\n") .mkdir arg
  | .cd => meaningOf (ascii "Usage: cd <path>\n") (fun path => .cd (pathOf path)) arg
  | .ls => .does (.list (pathOf (skipSpaces arg)))
  | .pwd => .does .pwd
  | .write =>
      if (pathWord (skipSpaces arg)).bytes = [] ∨ (writeText arg).bytes = [] then
        .prints [shellPrint (ascii "Usage: write <file> <text>\n")]
      else .does (.write (pathOf (pathWord (skipSpaces arg))) (writeText arg).bytes)
  | .cat => meaningOf (ascii "Usage: cat <file>\n")
      (fun path => .read (pathOf path) env.block.isSome) arg
  | command => .prints (env.rest command arg)

/-- A name in a listing. -/
def shownName (e : CStr × Bool) : List Output :=
  shellPrint e.1.bytes :: (if e.2 then [shellPrint (ascii "/")] else []) ++
    [shellPrint (ascii "\n")]

def shown : Cmd CStr UInt8 → Answer CStr UInt8 → List Output
  | .create _, .failed =>
      [shellPrint (ascii "Failed to create file (already exists or disk full)\n")]
  | .mkdir _, .failed =>
      [shellPrint (ascii "Failed to create directory (already exists or disk full)\n")]
  | .cd _, .notFound => [shellPrint (ascii "Directory not found\n")]
  | .list _, .notFound => [shellPrint (ascii "Directory not found\n")]
  | .list _, .listing es => es.flatMap shownName
  | .pwd, .path names => [shellPrint (pathText names).bytes, shellPrint (ascii "\n")]
  | .pwd, .failed => [shellPrint (ascii "Error getting current directory\n")]
  | .write _ _, .notFound => [shellPrint (ascii "File not found\n")]
  | .write _ _, .failed => [shellPrint (ascii "Write failed\n")]
  | .read _ _, .notFound => [shellPrint (ascii "File not found or is a directory\n")]
  | .read _ _, .failed => [shellPrint (ascii "Out of memory\n")]
  | .read _ _, .content c => [shellPrint (c.takeWhile (· ≠ 0)), shellPrintChar 10]
  | _, _ => []

/-- What a handler may print, and the desk after it. -/
inductive Handles (a : FsDesk) : Meaning → List Output → FsDesk → Prop
  | prints (out : List Output) : Handles a (.prints out) out a
  | does {cmd : Cmd CStr UInt8} {ans : Answer CStr UInt8} {a' : FsDesk}
      (h : Does dot dotdot (limits 256) a cmd ans a') : Handles a (.does cmd) (shown cmd ans) a'

/-- What a line may print. -/
inductive Executes (env : Env) (a : FsDesk) (cmd : CStr) : List Output → FsDesk → Bool → Prop
  | nothing (h : executeCommand cmd = .nothing) : Executes env a cmd [] a false
  | unknown {out : List Output} (h : executeCommand cmd = .unknown out) :
      Executes env a cmd out a false
  | handler {command : Command} {arg : CStr} {out : List Output} {a' : FsDesk}
      (h : executeCommand cmd = .handler command arg)
      (hh : Handles a (meaning env arg command) out a') :
      Executes env a cmd out a' (command = .fault)

/-- The prompt shows the path of the working directory, unless that is too long. -/
inductive Prompt (a : FsDesk) : List Output → Prop
  | path {names : List CStr} (h : Does dot dotdot (limits 256) a .pwd (.path names) a) :
      Prompt a [shellPrint (pathText names).bytes, shellPrint (ascii "$ ")]
  | long (text : List UInt8) (h : Does dot dotdot (limits 256) a .pwd .failed a) :
      Prompt a [shellPrint text, shellPrint (ascii "$ ")]

/-- The text of the line and the desk. -/
structure Talk where
  text : List UInt8
  desk : FsDesk
  halted : Bool

/-- The command in the text of a line. -/
def commandOf (text : List UInt8) : CStr :=
  ⟨text.takeWhile (· ≠ 0), fun h => by simpa using List.mem_takeWhile_imp h⟩

/-- What a key other than Enter prints. -/
def echo (text : List UInt8) (c : UInt8) : List Output :=
  if c = 8 then if text = [] then [] else [shellPrintChar 8]
  else if text.length < 255 then [shellPrintChar c]
  else []

/-- What a key may print. -/
inductive Talk.Key (env : Env) (w : Talk) : UInt8 → List Output → Talk → Prop
  | halted {c : UInt8} (h : w.halted = true) : Key env w c [] w
  | edit {c : UInt8} (h : w.halted = false) (hc : c ≠ 10) :
      Key env w c (echo w.text c) { w with text := edit w.text c }
  | enter {out prompt : List Output} {a' : FsDesk} {halted : Bool} (h : w.halted = false)
      (hx : Executes env w.desk (commandOf w.text) out a' halted)
      (hp : if halted then prompt = [] else Prompt a' prompt) :
      Key env w 10 (shellPrintChar 10 :: out ++ prompt) ⟨[], a', halted⟩

inductive Talks : Talk → List (Env × UInt8) → List Output → Talk → Prop
  | nil (w : Talk) : Talks w [] [] w
  | cons {w w' w'' : Talk} {env : Env} {c : UInt8} {keys : List (Env × UInt8)}
      {out outs : List Output} (h : w.Key env c out w') (hs : Talks w' keys outs w'') :
      Talks w ((env, c) :: keys) (out ++ outs) w''

/-- After the format. -/
def FsDesk.init : FsDesk := ⟨rootTree dot dotdot 0, 0, 0, INODE_COUNT - 1⟩

/-! ### The disk and the tree -/

structure Files.Stands (s : Files) (a : FsDesk) : Prop where
  inv : FsInv s.io.disk
  sb : s.sb.dataBlockStart = 17
  rep : Rep s.io.disk a.tree
  ok : a.Ok
  root : a.root = 0
  vfsRoot : NodeAt s.io.disk a.tree s.vfsRoot a.root
  cwd : NodeAt s.io.disk a.tree s.cwd a.cwd
  placed : PlacedBy (fun _ => True) s.io.disk s.cwd
  spare : a.spare = freeInodes s.io.disk

theorem strlen_skipSpaces (arg : CStr) : (skipSpaces arg).strlen ≤ arg.strlen :=
  (List.dropWhile_sublist _).length_le

theorem strlen_pathWord (arg : CStr) : (pathWord arg).strlen ≤ 255 := List.length_take_le _ _

theorem strlen_writeText (arg : CStr) : (writeText arg).strlen ≤ arg.strlen := by
  have htail : (tailFrom (skipSpaces arg) (pathWord (skipSpaces arg)).strlen).strlen ≤
      (skipSpaces arg).strlen := (List.drop_sublist _ _).length_le
  exact (strlen_skipSpaces _).trans (htail.trans (strlen_skipSpaces arg))

namespace Files.Stands

variable {s : Files} {a : FsDesk}

theorem cwd_dir (h : s.Stands a) : s.cwd.isDirectory = true :=
  (h.cwd.isDirectory_iff h.rep).2 h.ok.cwd

/-- The code resolves a path as the tree is walked. -/
theorem resolve (h : s.Stands a) {path : CStr} (hlen : path.strlen ≤ 255) :
    ∃ r, s.resolve path = some r ∧
      Option.Rel (NodeAt s.io.disk a.tree) r (a.find (pathOf path)) ∧
      ∀ n, r = some n → PlacedBy (fun _ => True) s.io.disk n := by
  have hshort := shortComponents_of_strlen hlen
  have hstart : NodeAt s.io.disk a.tree (startOf s.vfsRoot s.cwd path)
      (if (pathOf path).absolute then a.root else a.cwd) ∧
      PlacedBy (fun _ => True) s.io.disk (startOf s.vfsRoot s.cwd path) := by
    unfold startOf pathOf
    by_cases hslash : path.bytes.head? = some 47
    · simp only [hslash, if_true, decide_true]
      refine ⟨h.vfsRoot, [], ?_, by simp⟩
      rw [h.vfsRoot.idx, h.root]
      exact .nil
    · simp only [hslash, if_false, decide_false]
      exact ⟨h.cwd, h.placed⟩
  refine ⟨_, vfsResolvePath_eq_meaning hshort _ _ _, ?_, ?_⟩
  · exact lookupAll_node h.inv h.rep h.ok.wf hstart.1
  · intro n hn
    unfold resolveMeaning at hn
    rw [← walk_map_bytes] at hn
    exact hstart.2.walk h.inv (fun _ _ => trivial) hstart.1.ok hn

/-- A node found on the way of a path. -/
theorem find_cases (h : s.Stands a) {path : CStr} (hlen : path.strlen ≤ 255) :
    (s.resolve path = some none ∧ a.find (pathOf path) = none) ∨
    ∃ n k, s.resolve path = some (some n) ∧ a.find (pathOf path) = some k ∧
      NodeAt s.io.disk a.tree n k ∧ PlacedBy (fun _ => True) s.io.disk n := by
  obtain ⟨r, hr, hrel, hplaced⟩ := h.resolve hlen
  generalize hq : a.find (pathOf path) = q at hrel
  cases hrel with
  | none => exact Or.inl ⟨hr, rfl⟩
  | @some n k hn => exact Or.inr ⟨n, k, hr, rfl, hn, hplaced n rfl⟩

theorem isDirectory {n : VfsNode} {k : ℕ} (h : s.Stands a) (hn : NodeAt s.io.disk a.tree n k) :
    n.isDirectory = true ↔ a.tree.IsDir k := hn.isDirectory_iff h.rep

/-- A directory node stays one when the disk grows. -/
theorem grown {io' : Io} {a' : FsDesk} (h : s.Stands a) (hrun : SafeRun s.io io')
    (hok : a'.Ok) (hroot : a'.root = a.root) (hcwd : a'.cwd = a.cwd) (hrep : Rep io'.disk a'.tree)
    (hspare : a'.spare = freeInodes io'.disk) : { s with io := io' }.Stands a' := by
  have hgrows := hrun.grows h.inv
  have hdir : ∀ {n : VfsNode} {k : ℕ}, NodeAt s.io.disk a.tree n k → n.isDirectory = true →
      a'.tree.IsDir k → NodeAt io'.disk a'.tree n k := by
    rintro n k hn hd ⟨e, he⟩
    refine ⟨hn.ok.grows hgrows, hn.idx, ?_, fun hf => ?_⟩
    · rw [he]
      simp
    · rw [hd] at hf
      cases hf
  refine ⟨hrun.inv h.inv, h.sb, hrep, hok, hroot.trans h.root, ?_, ?_, h.placed.grows hgrows,
    hspare⟩
  · have hr := hok.root
    rw [hroot] at hr ⊢
    exact hdir h.vfsRoot ((h.isDirectory h.vfsRoot).2 h.ok.root) hr
  · have hc := hok.cwd
    rw [hcwd] at hc ⊢
    exact hdir h.cwd h.cwd_dir hc

/-! ### The handlers -/

/-- What a handler prints is what its command may be answered. -/
def Handled (a : FsDesk) (m : Meaning) (r : Option (List Output × Files)) : Prop :=
  ∃ out s' a', r = some (out, s') ∧ Handles a m out a' ∧ s'.Stands a'

theorem prints (h : s.Stands a) (out : List Output) : Handled a (.prints out) (some (out, s)) :=
  ⟨out, s, a, rfl, .prints out, h⟩

/-- `cmd_touch` and `cmd_mkdir`. -/
theorem creation (h : s.Stands a) {usage failed : List UInt8} {create : CStr → ℤ × Io}
    {cmd : CStr → Cmd CStr UInt8} {f : CStr → Op ℕ CStr UInt8} {g : ℕ → Node ℕ CStr UInt8}
    (hnew : ∀ name, NewNode s.io a.tree (f name) a.cwd name (create name).1 (create name).2)
    (hop : ∀ name t', DirTree.Step dot dotdot a.tree (f name) true t' →
      ∃ k, a.tree k = none ∧ t' = a.tree.add a.cwd name k (g k))
    (hdoes : ∀ name ans a', Creates (limits 256) a name g ans a' →
      Does dot dotdot (limits 256) a (cmd name) ans a')
    (hdone : ∀ name, shown (cmd name) .done = [])
    (hfailed : ∀ name, shown (cmd name) .failed = [shellPrint failed]) (arg : CStr) :
    Handled a (meaningOf usage cmd arg) (some (s.creation usage failed create arg)) := by
  unfold meaningOf Files.creation
  dsimp only
  by_cases harg : (skipSpaces arg).bytes = []
  · rw [if_pos harg, if_pos harg]
    exact h.prints _
  rw [if_neg harg, if_neg harg]
  generalize skipSpaces arg = name
  obtain ⟨ans, a', hc, hrep, hspare, hans⟩ := (hnew name).creates h.inv h.rep h.ok.cwd h.spare
    (hop name) 256
  have hd := hdoes name ans a' hc
  obtain ⟨hroot, hcwd, -⟩ : a'.root = a.root ∧ a'.cwd = a.cwd ∧ True := by
    cases hc <;> exact ⟨rfl, rfl, trivial⟩
  refine ⟨_, _, a', rfl, ?_, h.grown (hnew name).run (hd.ok h.ok) hroot hcwd hrep hspare⟩
  rcases hans with ⟨hret, rfl⟩ | ⟨hret, rfl⟩
  · rw [if_neg (not_not.2 hret), ← hdone name]
    exact .does hd
  · rw [if_pos hret, ← hfailed name]
    exact .does hd

theorem cmdTouch (h : s.Stands a) (env : Env) (arg : CStr) :
    Handled a (meaning env arg .touch) (some (s.cmdTouch arg)) := by
  apply h.creation (f := fun name => .create a.cwd name) (g := fun _ => .file [])
  · exact fun name => vfsCreate_newNode h.inv h.rep h.ok.wf h.cwd h.ok.cwd name
  · intro name t' hs
    cases hs with
    | @create _ k _ _ _ _ hk => exact ⟨k, hk, rfl⟩
  · exact fun name ans a' hc => .create hc
  · exact fun _ => rfl
  · exact fun _ => rfl

theorem cmdMkdir (h : s.Stands a) (env : Env) (arg : CStr) :
    Handled a (meaning env arg .mkdir) (some (s.cmdMkdir arg)) := by
  apply h.creation (f := fun name => .mkdir a.cwd name)
    (g := fun k => .dir (newEntries dot dotdot k a.cwd))
  · exact fun name => vfsMkdir_newNode h.inv h.sb h.rep h.ok.wf h.cwd h.ok.cwd name
  · intro name t' hs
    cases hs with
    | @mkdir _ k _ _ _ _ hk => exact ⟨k, hk, rfl⟩
  · exact fun name ans a' hc => .mkdir hc
  · exact fun _ => rfl
  · exact fun _ => rfl

theorem cmdCd (h : s.Stands a) (env : Env) {arg : CStr} (hlen : arg.strlen ≤ 255) :
    Handled a (meaning env arg .cd) (s.cmdCd arg) := by
  unfold meaning meaningOf Files.cmdCd
  dsimp only
  by_cases harg : (skipSpaces arg).bytes = []
  · rw [if_pos harg, if_pos harg]
    exact h.prints _
  rw [if_neg harg, if_neg harg]
  unfold Files.sysChdir
  rcases h.find_cases ((strlen_skipSpaces arg).trans hlen) with
    ⟨hr, hf⟩ | ⟨n, k, hr, hf, hn, hplaced⟩
  · rw [hr]
    refine ⟨_, s, a, rfl, .does (.cdFail fun k hk => ?_), h⟩
    rw [hf] at hk
    cases hk
  · rw [hr]
    by_cases hdir : n.isDirectory = true
    · have hk := (h.isDirectory hn).1 hdir
      refine ⟨_, { s with cwd := n }, { a with cwd := k }, ?_, .does (.cd hf hk), ?_⟩
      · simp [hdir, shown]
      · exact ⟨h.inv, h.sb, h.rep, ⟨h.ok.wf, h.ok.root, hk⟩, h.root, h.vfsRoot, hn, hplaced,
          h.spare⟩
    · refine ⟨_, s, a, ?_, .does (.cdFail fun m hm hd => ?_), h⟩
      · simp [hdir, shown]
      · rw [hf] at hm
        cases hm
        exact hdir ((h.isDirectory hn).2 hd)

theorem printDirEntries_eq (io : Io) (n : VfsNode) :
    printDirEntries io n = (listing io n).flatMap shownName := by
  unfold printDirEntries listing
  induction List.range ENTRIES_PER_BLOCK with
  | nil => rfl
  | cons j l ih =>
      rw [List.flatMap_cons, List.filterMap_cons, ih]
      cases vfsReaddir io n j <;> rfl

theorem cmdLs (h : s.Stands a) (env : Env) {arg : CStr} (hlen : arg.strlen ≤ 255) :
    Handled a (meaning env arg .ls) ((s.cmdLs arg).map (·, s)) := by
  have hlist : ∀ {p : Path CStr} {n : VfsNode} {k : ℕ}, a.find p = some k →
      NodeAt s.io.disk a.tree n k → n.isDirectory = true →
      Handles a (.does (.list p)) (printDirEntries s.io n) a := by
    intro p n k hf hn hdir
    have hl := listing_lists h.inv h.rep h.ok.wf hn hdir
    rw [printDirEntries_eq]
    exact .does (.list hf ((h.isDirectory hn).1 hdir) hl)
  unfold meaning Files.cmdLs
  dsimp only
  by_cases harg : (skipSpaces arg).bytes = []
  · rw [if_pos harg]
    have hempty : skipSpaces arg = emptyPath := CStr.ext harg
    refine ⟨_, s, a, rfl, hlist (k := a.cwd) ?_ h.cwd h.cwd_dir, h⟩
    rw [hempty, pathOf, components_empty]
    rfl
  rw [if_neg harg]
  rcases h.find_cases ((strlen_skipSpaces arg).trans hlen) with ⟨hr, hf⟩ | ⟨n, k, hr, hf, hn, -⟩
  · rw [hr]
    refine ⟨_, s, a, rfl, .does (.listFail fun k hk => ?_), h⟩
    rw [hf] at hk
    cases hk
  · rw [hr]
    by_cases hdir : n.isDirectory = true
    · refine ⟨_, s, a, ?_, hlist hf hn hdir, h⟩
      simp [hdir]
    · refine ⟨_, s, a, ?_, .does (.listFail fun m hm hd => ?_), h⟩
      · simp [hdir, shown]
      · rw [hf] at hm
        cases hm
        exact hdir ((h.isDirectory hn).2 hd)

/-- `sys_getcwd` shows the path of the working directory, when it can. -/
theorem sysGetcwd (h : s.Stands a) (buf : ℤ → UInt8) :
    (∃ names, Does dot dotdot (limits 256) a .pwd (.path names) a ∧
      s.sysGetcwd buf = (0, pathText names)) ∨
    (Does dot dotdot (limits 256) a .pwd .failed a ∧ (s.sysGetcwd buf).1 = -1) := by
  obtain ⟨names, hp, -⟩ := h.placed
  have hd := h.cwd.ok.dir h.cwd_dir
  have hroot : a.tree 0 ≠ none := by
    rw [← h.root]
    exact h.vfsRoot.mem
  have hwalk : a.tree.walk a.root names = some a.cwd := by
    rw [h.root, PathTo.walk_tree h.rep h.ok.wf hroot hp, h.cwd.idx]
  obtain ⟨hdot, hdotdot⟩ := hp.noDots h.inv.tree
  have htext := vfsGetPathOut_text h.inv hp h.cwd_dir hd (show 2 ≤ (256 : UInt32).toNat by decide)
    (by decide) buf
  have hsize : (256 : UInt32).toNat = 256 := rfl
  rw [hsize] at htext
  unfold Files.sysGetcwd
  rcases htext with ⟨hshown, hret, hstr⟩ | ⟨hshown, hret⟩
  · left
    refine ⟨names, .pwd hwalk hdot hdotdot hshown, ?_⟩
    dsimp only
    rw [hret, hstr]
  · right
    exact ⟨.pwdFail hwalk hdot hdotdot hshown, hret⟩

theorem cmdPwd (h : s.Stands a) (env : Env) (arg : CStr) :
    Handled a (meaning env arg .pwd) (some (s.cmdPwd env.pathBuf, s)) := by
  unfold meaning Files.cmdPwd
  dsimp only
  rcases h.sysGetcwd env.pathBuf with ⟨names, hd, hcall⟩ | ⟨hd, hret⟩
  · rw [hcall]
    exact ⟨_, s, a, rfl, .does hd, h⟩
  · rw [hret]
    exact ⟨_, s, a, rfl, .does hd, h⟩

theorem cmdWrite (h : s.Stands a) (env : Env) {arg : CStr} (hlen : arg.strlen ≤ 255) :
    Handled a (meaning env arg .write) (s.cmdWrite arg) := by
  have hpath : (pathWord (skipSpaces arg)).strlen ≤ 255 := strlen_pathWord _
  have htext : (writeText arg).strlen ≤ 255 := (strlen_writeText arg).trans hlen
  have hcall : s.cmdWrite arg =
      if (pathWord (skipSpaces arg)).bytes = [] ∨ (writeText arg).bytes = [] then
        some ([shellPrint (ascii "Usage: write <file> <text>\n")], s)
      else (s.resolve (pathWord (skipSpaces arg))).map (s.writeFile (writeText arg)) := rfl
  rw [hcall]
  unfold meaning
  dsimp only
  generalize pathWord (skipSpaces arg) = path, writeText arg = text at hpath htext
  by_cases harg : path.bytes = [] ∨ text.bytes = []
  · rw [if_pos harg, if_pos harg]
    exact h.prints _
  rw [if_neg harg, if_neg harg]
  rcases h.find_cases hpath with ⟨hr, hf⟩ | ⟨n, k, hr, hf, hn, -⟩
  · rw [hr]
    exact ⟨_, s, a, rfl, .does (.writeNone hf), h⟩
  rw [hr]
  by_cases hdir : n.isDirectory = true
  · have hcall : vfsWrite s.io s.sb n text.byteAt (UInt32.ofNat text.strlen) = (-1, s.io, n) :=
      if_pos hdir
    refine ⟨_, s, a, ?_, .does (.writeDir hf ((h.isDirectory hn).1 hdir)), h⟩
    rw [Option.map_some, Files.writeFile, hcall]
    rfl
  · have hfile : n.isDirectory = false := by simpa using hdir
    obtain ⟨c, hc⟩ := hn.file h.rep hfile
    have hsize : (UInt32.ofNat text.strlen).toNat = text.strlen := by
      rw [UInt32.toNat_ofNat', Nat.mod_eq_of_lt (by omega)]
    have hcontent : contentOf text.byteAt (UInt32.ofNat text.strlen) = text.bytes := by
      unfold contentOf
      rw [hsize]
      apply List.ext_getElem
      · simp [CStr.strlen]
      · intro j h1 h2
        rw [List.getElem_map, List.getElem_range, CStr.byteAt, List.getD_eq_getElem _ _ h2]
    obtain ⟨hret, hw⟩ := vfsWrite_written h.inv h.sb h.rep hn hfile text.byteAt
      (show (UInt32.ofNat text.strlen).toNat ≤ 30 * 512 by omega)
    rw [hcontent] at hw
    have hd : Does dot dotdot (limits 256) a
        (.write (pathOf path) text.bytes) .done { a with tree := a.tree.write k text.bytes } :=
      .write hf hc
    refine ⟨_, _, _, ?_, .does hd, h.grown hw.run (hd.ok h.ok) rfl rfl hw.rep
      (h.spare.trans hw.free.symm)⟩
    rw [Option.map_some, Files.writeFile]
    dsimp only
    rw [hret, if_neg (by decide)]
    rfl

theorem printFile_eq (h : s.Stands a) {n : VfsNode} {k : ℕ} (hn : NodeAt s.io.disk a.tree n k)
    (hf : n.isDirectory = false) {c : List UInt8} (hc : a.tree.IsFile k c) (buf : ℕ → UInt8) :
    printFile s.io n (some buf) = some [shellPrint (c.takeWhile (· ≠ 0)), shellPrintChar 10] := by
  obtain ⟨hsize, hread⟩ := vfsRead_node h.inv h.rep hn hf hc
  unfold printFile
  dsimp only
  rw [hread, Option.map_some, hsize]
  dsimp only
  rw [CStr.bytes_ofMem_of_text (l := c)]
  · intro j hj
    rw [Function.update_of_ne hj.ne, if_pos hj]
  · exact Function.update_self ..
  · exact Nat.lt_succ_self _

theorem cmdCat (h : s.Stands a) (env : Env) {arg : CStr} (hlen : arg.strlen ≤ 255) :
    Handled a (meaning env arg .cat) ((s.cmdCat env.block arg).map (·, s)) := by
  unfold meaning meaningOf Files.cmdCat
  dsimp only
  by_cases harg : (skipSpaces arg).bytes = []
  · rw [if_pos harg, if_pos harg]
    exact h.prints _
  rw [if_neg harg, if_neg harg]
  rcases h.find_cases ((strlen_skipSpaces arg).trans hlen) with ⟨hr, hf⟩ | ⟨n, k, hr, hf, hn, -⟩
  · rw [hr]
    refine ⟨_, s, a, rfl, .does (.readFail fun k c hk => ?_), h⟩
    rw [hf] at hk
    cases hk
  rw [hr, Option.bind_some]
  by_cases hdir : n.isDirectory = true
  · refine ⟨_, s, a, ?_, .does (.readFail fun m c hm hc => ?_), h⟩
    · simp [hdir, shown]
    · rw [hf] at hm
      cases hm
      exact hc.not_dir ((h.isDirectory hn).1 hdir)
  · have hfile : n.isDirectory = false := by simpa using hdir
    obtain ⟨c, hc⟩ := hn.file h.rep hfile
    dsimp only
    rw [if_neg hdir]
    cases env.block with
    | none => exact ⟨_, s, a, rfl, .does (.readNoRoom hf hc), h⟩
    | some buf =>
        refine ⟨_, s, a, ?_, .does (.read hf hc), h⟩
        rw [h.printFile_eq hn hfile hc buf]
        rfl

/-- A handler prints what its command may be answered. -/
theorem handler (h : s.Stands a) (env : Env) {arg : CStr} (hlen : arg.strlen ≤ 255)
    (command : Command) : Handled a (meaning env arg command) (s.handler env arg command) := by
  cases command with
  | touch => exact h.cmdTouch env arg
  | mkdir => exact h.cmdMkdir env arg
  | cd => exact h.cmdCd env hlen
  | ls => exact h.cmdLs env hlen
  | pwd => exact h.cmdPwd env arg
  | write => exact h.cmdWrite env hlen
  | cat => exact h.cmdCat env hlen
  | _ => exact h.prints _

theorem freeInodes_init {d : Disk} (hd : needsFormat d = true) :
    FsDesk.init.spare = freeInodes (Files.init d).io.disk := by
  have hi : simplefsInit ⟨d, []⟩ = (formatDisk ⟨d, []⟩, formatSuperblock) := by
    unfold simplefsInit
    rw [if_pos hd]
  have hio : (Files.init d).io = (simplefsInit ⟨d, []⟩).1 := rfl
  rw [hio, hi]
  exact freeInodes_formatDisk _

/-- After a format the disk stands for the tree with the root alone. -/
theorem init {d : Disk} (hd : needsFormat d = true) : (Files.init d).Stands FsDesk.init := by
  have hok := FsState.Ok.init hd
  have hroot : IsNode (Files.init d).io.disk (Files.init d).vfsRoot 0 := isNode_root hd
  have hdir := hroot.isDirectory hok.inv.tree.root.dir
  have hisDir : (rootTree dot dotdot 0 : FsTree).IsDir 0 := ⟨_, Function.update_self ..⟩
  have hnode : NodeAt (Files.init d).io.disk (rootTree dot dotdot 0) (Files.init d).vfsRoot 0 := by
    refine ⟨⟨fun _ => ?_, fun hf => ?_⟩, hroot.idx, ?_, fun hf => ?_⟩
    · rw [hroot.idx]
      exact hok.inv.tree.root
    · rw [hdir] at hf
      cases hf
    · obtain ⟨e, he⟩ := hisDir
      rw [he]
      simp
    · rw [hdir] at hf
      cases hf
  exact ⟨hok.inv, hok.sb, hok.rep, ⟨hok.wf, hisDir, hisDir⟩, rfl, hnode, hnode, hroot.placed _,
    freeInodes_init hd⟩

end Files.Stands

/-! ### Keys -/

/-- The line has the text, and the disk stands for the tree. -/
structure State.Stands (s : State) (w : Talk) : Prop where
  line : s.line.Has w.text
  files : s.files.Stands w.desk
  halted : s.halted = w.halted

theorem strlen_executeCommand {cmd arg : CStr} {command : Command}
    (h : executeCommand cmd = .handler command arg) : arg.strlen ≤ cmd.strlen := by
  unfold executeCommand at h
  dsimp only at h
  split_ifs at h
  split at h
  · cases h
    have htail : ∀ (c : CStr) (i : ℕ), (tailFrom c i).strlen ≤ c.strlen := fun c i =>
      (List.drop_sublist i c.bytes).length_le
    exact (strlen_skipSpaces _).trans ((htail _ _).trans (strlen_skipSpaces cmd))
  · cases h

variable {s : State} {w : Talk}

theorem Files.Stands.execute {a : FsDesk} (h : s.files.Stands a) (hs : s.halted = false) (env : Env)
    {cmd : CStr} (hlen : cmd.strlen ≤ 255) : ∃ out s' a', s.execute env cmd = some (out, s') ∧
      Executes env a cmd out a' s'.halted ∧ s'.files.Stands a' ∧ s'.line = s.line := by
  unfold State.execute
  cases hx : executeCommand cmd with
  | nothing =>
      refine ⟨_, s, a, rfl, ?_, h, rfl⟩
      rw [hs]
      exact .nothing hx
  | unknown out =>
      refine ⟨_, s, a, rfl, ?_, h, rfl⟩
      rw [hs]
      exact .unknown hx
  | handler command arg =>
      obtain ⟨out, files, a', hcall, hh, hfiles⟩ :=
        h.handler env ((strlen_executeCommand hx).trans hlen) command
      dsimp only
      rw [hcall, hs, Bool.false_or]
      exact ⟨out, _, a', rfl, .handler hx hh, hfiles, rfl⟩

theorem Files.Stands.prompt {a : FsDesk} (h : s.files.Stands a) (env : Env) :
    Prompt a (s.printPrompt env) := by
  unfold State.printPrompt
  rcases h.sysGetcwd env.promptBuf with ⟨names, hd, hcall⟩ | ⟨hd, -⟩
  · rw [hcall]
    exact .path hd
  · exact .long _ hd

/-- What Enter hands over, also when the text has a NUL in it. -/
theorem Line.Has.command {l : Line} {text : List UInt8} (h : l.Has text) :
    shellHandleKey l 10 = (⟨Function.update l.inputBuffer l.inputBufferLen 0, 0⟩,
      [shellPrintChar 10], some (commandOf text)) := by
  have hcmd : CStr.ofMem 256 (Function.update l.inputBuffer l.inputBufferLen 0) =
      commandOf text := by
    apply CStr.ext
    apply CStr.bytes_ofMem_of_text
    · intro k hk
      rw [Function.update_of_ne (by rw [h.len]; exact hk.ne)]
      exact h.chars k hk
    · rw [h.len]
      exact Function.update_self ..
    · exact Nat.lt_succ_of_le h.le
  unfold shellHandleKey
  rw [if_pos rfl]
  dsimp only
  rw [hcmd]

theorem Line.Has.echo {l : Line} {text : List UInt8} (h : l.Has text) {c : UInt8} (hc : c ≠ 10) :
    (shellHandleKey l c).2.1 = echo text c := by
  have hlen := h.len
  unfold shellHandleKey Shell.echo
  rw [if_neg hc]
  by_cases h8 : c = 8
  · rw [if_pos h8, if_pos h8]
    by_cases ht : text = []
    · rw [if_pos ht, if_neg (by rw [hlen, ht]; decide)]
    · rw [if_neg ht, if_pos (by rw [hlen]; exact List.length_pos_iff.2 ht)]
  · rw [if_neg h8, if_neg h8, hlen]
    split_ifs <;> rfl

/-- A key prints what it may. -/
theorem State.Stands.key (h : s.Stands w) (env : Env) (c : UInt8) :
    ∃ out s' w', s.handleKey env c = some (out, s') ∧ w.Key env c out w' ∧ s'.Stands w' := by
  unfold State.handleKey
  by_cases hh : s.halted = true
  · rw [if_pos hh]
    exact ⟨[], s, w, rfl, .halted (h.halted.symm.trans hh), h⟩
  have hs : s.halted = false := by simpa using hh
  have hw : w.halted = false := h.halted.symm.trans hs
  rw [if_neg hh]
  by_cases hc : c = 10
  · subst hc
    have hlen : (commandOf w.text).strlen ≤ 255 :=
      ((List.takeWhile_sublist _).length_le).trans h.line.le
    obtain ⟨out, s', a', hx, hexec, hfiles, hline⟩ :=
      Files.Stands.execute (s := { s with
        line := (shellHandleKey s.line 10).1 }) h.files hs env hlen
    rw [h.line.command] at hx hline ⊢
    dsimp only at hx ⊢
    rw [hx]
    refine ⟨_, s', ⟨[], a', s'.halted⟩, rfl, .enter hw hexec ?_, ⟨?_, hfiles, rfl⟩⟩
    · by_cases hhalted : s'.halted = true
      · simp [hhalted]
      · simp only [hhalted]
        exact hfiles.prompt env
    · rw [hline]
      exact Line.has_nil rfl
  · obtain ⟨hhas, hnone⟩ := h.line.edit hc
    have hecho := h.line.echo hc
    generalize shellHandleKey s.line c = r at hhas hnone hecho
    obtain ⟨line, out, cmd⟩ := r
    dsimp only at hhas hnone hecho ⊢
    rw [hnone, hecho]
    exact ⟨_, _, _, rfl, .edit hw hc, ⟨hhas, h.files, h.halted⟩⟩

theorem State.Stands.run (h : s.Stands w) (keys : List (Env × UInt8)) :
    ∃ out s' w', s.run keys = some (out, s') ∧ Talks w keys out w' ∧ s'.Stands w' := by
  induction keys generalizing s w with
  | nil => exact ⟨[], s, w, rfl, .nil w, h⟩
  | cons e keys ih =>
      obtain ⟨env, c⟩ := e
      obtain ⟨out, s₁, w₁, hkey, htalk, h₁⟩ := h.key env c
      obtain ⟨outs, s₂, w₂, hrun, htalks, h₂⟩ := ih h₁
      refine ⟨out ++ outs, s₂, w₂, ?_, .cons htalk htalks, h₂⟩
      rw [State.run, hkey, Option.bind_some]
      dsimp only
      rw [hrun]
      rfl

theorem State.Stands.init {d : Disk} (hd : needsFormat d = true) (inputBuffer : ℕ → UInt8) :
    (State.init d inputBuffer).Stands ⟨[], FsDesk.init, false⟩ :=
  ⟨Line.has_nil rfl, Files.Stands.init hd, rfl⟩

/-- **The shell refines commands on a directory tree.**  On a device that it has formatted, and
whatever is typed, it accesses no byte outside its buffers, it prints what the commands may be
answered on the tree, and the disk keeps standing for that tree. -/
theorem shellMain_talks (d : Disk) (hd : needsFormat d = true) (inputBuffer : ℕ → UInt8)
    (env : Env) (keys : List (Env × UInt8)) : ∃ prompt out s w,
      shellMain d inputBuffer env keys = some (shellPrint
        (ascii "Welcome to NOSMERI-OS! Type 'help' to see available commands.\n\n") ::
          prompt ++ out, s) ∧
      Prompt FsDesk.init prompt ∧ Talks ⟨[], FsDesk.init, false⟩ keys out w ∧
      s.files.Stands w.desk := by
  have hstart := State.Stands.init hd inputBuffer
  obtain ⟨out, s, w, hrun, htalks, hs⟩ := hstart.run keys
  refine ⟨_, out, s, w, ?_, hstart.files.prompt env, htalks, hs.files⟩
  unfold shellMain
  dsimp only
  rw [hrun]
  rfl

/-- No other command prints anything, and there is memory for `cat`. -/
def quietEnv : Env := ⟨fun _ _ => [], some fun _ => 0, fun _ => 0, fun _ => 0⟩

/-- A file is made, written and shown on a blank disk. -/
theorem shellMain_talks_blank : needsFormat blankDisk = true ∧ ∃ prompt out s w,
    shellMain blankDisk (fun _ => 0) quietEnv
        ((ascii "touch f\nwrite f hi\ncat f\n").map (quietEnv, ·)) = some (shellPrint
      (ascii "Welcome to NOSMERI-OS! Type 'help' to see available commands.\n\n") ::
        prompt ++ out, s) ∧
    Prompt FsDesk.init prompt ∧
    Talks ⟨[], FsDesk.init, false⟩ ((ascii "touch f\nwrite f hi\ncat f\n").map (quietEnv, ·))
      out w ∧
    s.files.Stands w.desk :=
  ⟨by decide, shellMain_talks blankDisk (by decide) _ _ _⟩

end NosmeriOs.Shell
