import NosmeriOs.VfsRoundTrip

/-! # What paths mean (`fs/vfs.cpp`)

`vfs_resolve_path` reads a path character by character, with a buffer for the current component.
Its meaning is a fold: `vfs_lookup` along the non-empty components.

* `components`, `lookupAll`, `resolveMeaning`: the reference.
* `vfsResolvePath_meaning`: the code computes it for paths with components of at most 255 bytes.
* `PathInBounds`: the writes into `token[256]` and into the names of nodes stay inside.
* `run_path_in_bounds_iff`: they do when no component that is reached has more than 255 bytes. -/

namespace NosmeriOs.Vfs

open Bytes SimpleFs Paths

/-! ### The reference -/

def nameOfToken (t : List UInt8) : CStr := CStr.ofMem t.length (t.getD · 0)

/-- The non-empty parts of a path between its slashes. -/
def components (path : CStr) : List CStr := (tokens 47 path.bytes).map nameOfToken

def lookupAll (io : Io) (cur : VfsNode) (names : List CStr) : Option VfsNode :=
  names.foldlM (vfsLookup io) cur

def resolveMeaning (io : Io) (vfsRoot currentDir : VfsNode) (path : CStr) : Option VfsNode :=
  lookupAll io (startOf vfsRoot currentDir path) (components path)

/-- The call as its caller sees it: the returned value, and `*out_node` afterwards. -/
def resolvePathCall (io : Io) (vfsRoot currentDir : VfsNode) (path : CStr) (outNode : VfsNode) :
    Option (ℤ × VfsNode) :=
  (vfsResolvePath io vfsRoot currentDir path).map fun
    | none => (-1, outNode)
    | some cur => (0, cur)

/-- No component is longer than `token[256]` allows. -/
def ShortComponents (path : CStr) : Prop := ∀ c ∈ components path, c.strlen ≤ 255

theorem bytes_nameOfToken {path : CStr} {t : List UInt8} (ht : t ∈ tokens 47 path.bytes) :
    (nameOfToken t).bytes = t := by
  unfold nameOfToken
  rw [bytes_ofMem_token, List.takeWhile_eq_self_iff]
  intro b hb
  have hne : b ≠ 0 := fun h0 => path.noNul (by rw [← h0]; exact subset_of_mem_tokens ht hb)
  simpa using hne

theorem map_bytes_components (path : CStr) :
    (components path).map CStr.bytes = tokens 47 path.bytes := by
  unfold components
  rw [List.map_map]
  apply (List.map_congr_left fun t ht => bytes_nameOfToken ht).trans
  exact List.map_id _

theorem shortComponents_iff {path : CStr} :
    ShortComponents path ↔ ∀ t ∈ tokens 47 path.bytes, t.length < TOKEN_SIZE := by
  rw [← map_bytes_components]
  simp [ShortComponents, CStr.strlen, TOKEN_SIZE, Nat.lt_succ_iff]

theorem walk_map_bytes (io : Io) (cur : VfsNode) (names : List CStr) :
    walk io cur (names.map CStr.bytes) = lookupAll io cur names := by
  unfold walk lookupAll
  rw [List.foldlM_map]
  simp only [resolveStep_bytes]

theorem lookupAll_append (io : Io) (cur : VfsNode) (names names' : List CStr) :
    lookupAll io cur (names ++ names') =
      (lookupAll io cur names).bind fun next => lookupAll io next names' :=
  List.foldlM_append

/-- The code computes its meaning. -/
theorem vfsResolvePath_eq_meaning {path : CStr} (h : ShortComponents path) (io : Io)
    (vfsRoot currentDir : VfsNode) :
    vfsResolvePath io vfsRoot currentDir path =
      some (resolveMeaning io vfsRoot currentDir path) := by
  rw [vfsResolvePath_of_short (shortComponents_iff.1 h), ← map_bytes_components, walk_map_bytes]
  rfl

/-! ### Files -/

theorem simplefsLookup_cInt (io : Io) (p : UInt32) (name : CStr) :
    simplefsLookup io p name = -1 ∨ ∃ w, simplefsLookup io p name = cInt w := by
  unfold simplefsLookup
  dsimp only
  split_ifs
  · exact Or.inl rfl
  · split
    · exact Or.inr ⟨_, rfl⟩
    · exact Or.inl rfl

/-- A regular file that a lookup finds is found again under its name. -/
theorem simplefsLookup_of_vfsLookup {io : Io} {dir N : VfsNode} {name : CStr}
    (h : vfsLookup io dir name = some N) (hf : N.isDirectory = false) :
    simplefsLookup io N.parentIdx N.name = N.inodeIdx.toNat ∧ N.inodeIdx.toNat < 64 ∧
      (inodeAt io.disk N.inodeIdx.toNat).isDir = false ∧
      N.size = (inodeAt io.disk N.inodeIdx.toNat).size := by
  unfold vfsLookup at h
  dsimp only at h
  split_ifs at h with hdir hdot hneg
  · cases h
    rw [hf] at hdir
    simp at hdir
  · obtain ⟨inode, hget, rfl⟩ := Option.map_eq_some_iff.1 h
    unfold simplefsGetInode at hget
    split_ifs at hget with hlt
    cases hget
    rw [isDirectory_nodeOf] at hf
    obtain he | ⟨w, he⟩ := simplefsLookup_cInt io dir.inodeIdx name
    · rw [he] at hneg
      exact absurd (by decide) hneg
    · have hw : (cUInt (simplefsLookup io dir.inodeIdx name)).toNat = w.toNat := by
        rw [he, cUInt_cInt]
      unfold INODE_COUNT at hlt
      unfold nodeOf
      dsimp only
      refine ⟨?_, by omega, hf, rfl⟩
      rw [hw, he, cInt_of_lt_half (by omega)]

/-- **Reading the file under a path** gives its content. -/
theorem vfsRead_of_resolve {io : Io} {vfsRoot currentDir N : VfsNode} {path : CStr}
    {c : List UInt8} (hpath : components path ≠ [])
    (h : vfsResolvePath io vfsRoot currentDir path = some (some N)) (hf : N.isDirectory = false)
    (hc : FileHolds io.disk N.inodeIdx.toNat c) :
    N.size.toNat = c.length ∧
      ∀ n, vfsRead io N n = some (((min n.toNat c.length : ℕ) : ℤ), c.take n.toNat) := by
  have hwalk := vfsResolvePath_eq_walk h
  rw [← map_bytes_components, walk_map_bytes, ← List.dropLast_append_getLast hpath,
    lookupAll_append] at hwalk
  obtain ⟨dir, -, hlast⟩ := Option.bind_eq_some_iff.1 hwalk.symm
  have hlook : vfsLookup io dir ((components path).getLast hpath) = some N := by
    simpa [lookupAll] using hlast
  obtain ⟨hl, hlt, hfile, hsize⟩ := simplefsLookup_of_vfsLookup hlook hf
  refine ⟨?_, fun n => ?_⟩
  · rw [hsize]
    exact hc.size
  · unfold vfsRead
    rw [hf, if_neg Bool.false_ne_true]
    exact simplefsRead_holds hl hlt hfile hc n

/-! ### Slashes -/

/-- The empty string. -/
def emptyPath : CStr := ⟨[], CStr.noNul_nil⟩

theorem components_child (p q : CStr) :
    components (CStr.child p q) = components p ++ components q := by
  simp [components, CStr.child, tokens_append_cons]

theorem components_empty : components emptyPath = [] := by simp [components, emptyPath]

/-- A path and another one behind a slash start at the same node. -/
theorem startOf_child {p : CStr} (hp : p.bytes ≠ []) (vfsRoot currentDir : VfsNode) (q : CStr) :
    startOf vfsRoot currentDir (CStr.child p q) = startOf vfsRoot currentDir p := by
  obtain ⟨c, rest, he⟩ := List.exists_cons_of_ne_nil hp
  simp [startOf, CStr.child, he]

theorem startOf_child_child (vfsRoot currentDir : VfsNode) (p q : CStr) :
    startOf vfsRoot currentDir (CStr.child p (CStr.child emptyPath q)) =
      startOf vfsRoot currentDir (CStr.child p q) := by
  cases hp : p.bytes with
  | nil => simp [startOf, CStr.child, hp]
  | cons c rest => simp [startOf, CStr.child, hp]

theorem components_of_slashFree {s : CStr} (hslash : SlashFree s) (hne : s.bytes ≠ []) :
    components s = [s] := by
  have ht : tokens 47 s.bytes = [s.bytes] := tokens_eq_singleton hslash hne
  have hmem : s.bytes ∈ tokens 47 s.bytes := by simp [ht]
  unfold components
  rw [ht, List.map_singleton, CStr.ext (bytes_nameOfToken hmem)]

theorem components_fileName (i : ℕ) : components (fileName i) = [fileName i] := by
  refine components_of_slashFree (fun h => ?_) (List.cons_ne_nil _ _)
  have hb := congrArg UInt8.toNat (List.mem_singleton.1 h)
  simp only [UInt8.toNat_ofNat'] at hb
  have : (47 : UInt8).toNat = 47 := rfl
  omega

/-- **`vfs_resolve_path` is the fold of `vfs_lookup` along the components of the path.**  Hence a
slash may be repeated or come last, and a path goes on from the node that its first part leads
to. -/
theorem vfsResolvePath_meaning (io : Io) (vfsRoot currentDir : VfsNode) :
    (∀ path outNode, ShortComponents path →
      resolvePathCall io vfsRoot currentDir path outNode =
        match resolveMeaning io vfsRoot currentDir path with
        | none => some (-1, outNode)
        | some node => some (0, node)) ∧
    (∀ p q, ShortComponents p → ShortComponents q →
      vfsResolvePath io vfsRoot currentDir (CStr.child p (CStr.child emptyPath q)) =
        vfsResolvePath io vfsRoot currentDir (CStr.child p q)) ∧
    (∀ p, ShortComponents p → p.bytes ≠ [] →
      vfsResolvePath io vfsRoot currentDir (CStr.child p emptyPath) =
        vfsResolvePath io vfsRoot currentDir p) ∧
    ∀ p q node, ShortComponents p → ShortComponents q → p.bytes ≠ [] → q.bytes ≠ [] →
      q.bytes.head? ≠ some 47 → vfsResolvePath io vfsRoot currentDir p = some (some node) →
      vfsResolvePath io vfsRoot currentDir (CStr.child p q) =
        vfsResolvePath io vfsRoot node q := by
  have hchild : ∀ p q, ShortComponents p → ShortComponents q →
      ShortComponents (CStr.child p q) := by
    intro p q hp hq c hc
    rw [components_child, List.mem_append] at hc
    exact hc.elim (hp c) (hq c)
  have hempty : ShortComponents emptyPath := by simp [ShortComponents, components_empty]
  refine ⟨fun path outNode h => ?_, fun p q hp hq => ?_, fun p hp hne => ?_,
    fun p q node hp hq hpne hqne hslash hnode => ?_⟩
  · unfold resolvePathCall
    rw [vfsResolvePath_eq_meaning h]
    cases resolveMeaning io vfsRoot currentDir path <;> rfl
  · rw [vfsResolvePath_eq_meaning (hchild _ _ hp (hchild _ _ hempty hq)),
      vfsResolvePath_eq_meaning (hchild _ _ hp hq)]
    unfold resolveMeaning
    rw [startOf_child_child, components_child, components_child, components_child,
      components_empty, List.nil_append]
  · rw [vfsResolvePath_eq_meaning (hchild _ _ hp hempty), vfsResolvePath_eq_meaning hp]
    unfold resolveMeaning
    rw [startOf_child hne, components_child, components_empty, List.append_nil]
  · rw [vfsResolvePath_eq_meaning hp, Option.some_inj] at hnode
    rw [vfsResolvePath_eq_meaning (hchild _ _ hp hq), vfsResolvePath_eq_meaning hq]
    unfold resolveMeaning at *
    rw [startOf_child hpne, components_child, lookupAll_append, hnode, Option.bind_some, startOf,
      if_neg hslash]

/-- The directory `a`, from the root. -/
def pathA : CStr := CStr.child emptyPath (fileName 0)

theorem components_pathA : components pathA = [fileName 0] := by
  rw [pathA, components_child, components_empty, components_fileName]
  rfl

theorem shortComponents_pathA : ShortComponents pathA := by
  rw [ShortComponents, components_pathA]
  decide

/-- It is found where it has been made. -/
theorem resolve_pathA : ∃ n,
    vfsResolvePath ((VfsState.init blankDisk).run firstMkdir).io (vfsInit ⟨blankDisk, []⟩).2.2
      (vfsInit ⟨blankDisk, []⟩).2.2 pathA = some (some n) := by
  have hd : needsFormat blankDisk = true := by decide
  have hinv := ((VfsState.Ok.init hd).run firstMkdir).inv
  obtain ⟨n, -, -, hedge, -⟩ := firstMkdir_node
  have hpath : PathTo ((VfsState.init blankDisk).run firstMkdir).io.disk [fileName 0]
      n.inodeIdx.toNat := Trail.snoc .nil hedge
  have htokens : tokens 47 pathA.bytes = [fileName 0].map CStr.bytes := by
    rw [← map_bytes_components, components_pathA]
  obtain ⟨m, hm, -⟩ := hpath.resolve hinv (VfsState.Ok.isNode_root hd firstMkdir)
    (vfsInit ⟨blankDisk, []⟩).2.2 rfl htokens
  exact ⟨m, hm⟩

/-- `/a`, `/a/`, `/a/..` and `/a//..`, with `a` a directory in the root. -/
theorem vfsResolvePath_meaning_below : ∃ io vfsRoot node, ShortComponents pathA ∧
    ShortComponents dotdot ∧ pathA.bytes ≠ [] ∧ dotdot.bytes ≠ [] ∧
    dotdot.bytes.head? ≠ some 47 ∧ vfsResolvePath io vfsRoot vfsRoot pathA = some (some node) ∧
    resolvePathCall io vfsRoot vfsRoot pathA vfsRoot =
      (match resolveMeaning io vfsRoot vfsRoot pathA with
      | none => some (-1, vfsRoot)
      | some node => some (0, node)) ∧
    vfsResolvePath io vfsRoot vfsRoot (CStr.child pathA (CStr.child emptyPath dotdot)) =
      vfsResolvePath io vfsRoot vfsRoot (CStr.child pathA dotdot) ∧
    vfsResolvePath io vfsRoot vfsRoot (CStr.child pathA emptyPath) =
      vfsResolvePath io vfsRoot vfsRoot pathA ∧
    vfsResolvePath io vfsRoot vfsRoot (CStr.child pathA dotdot) =
      vfsResolvePath io vfsRoot node dotdot := by
  obtain ⟨node, hnode⟩ := resolve_pathA
  generalize ((VfsState.init blankDisk).run firstMkdir).io = io at hnode
  generalize (vfsInit ⟨blankDisk, []⟩).2.2 = vfsRoot at hnode
  have hne : pathA.bytes ≠ [] := List.cons_ne_nil _ _
  have hslash : dotdot.bytes.head? ≠ some 47 := by decide
  have hdots : ShortComponents dotdot := by
    have hfree : 47 ∉ dotdot.bytes := by decide
    rw [ShortComponents, components_of_slashFree hfree (by decide)]
    decide
  obtain ⟨hcall, htwice, hlast, hsplit⟩ := vfsResolvePath_meaning io vfsRoot vfsRoot
  exact ⟨io, vfsRoot, node, shortComponents_pathA, hdots, hne, by decide, hslash, hnode,
    hcall _ _ shortComponents_pathA, htwice _ _ shortComponents_pathA hdots,
    hlast _ shortComponents_pathA hne,
    hsplit _ _ node shortComponents_pathA hdots hne (by decide) hslash hnode⟩

/-! ### Bounds -/

/-- `char name[32]` of a `vfs_node`. -/
def NODE_NAME_SIZE : ℕ := 32

/-- The two copies into a node's name from a directory node: `vfs_lookup` copies the name it has
found, but for `.`, and `vfs_readdir` the string in the entry's `filename`. -/
structure NameCopiesFit (io : Io) (n : VfsNode) : Prop where
  lookup : ∀ name m, name ≠ dot → vfsLookup io n name = some m → name.strlen + 1 ≤ NODE_NAME_SIZE
  readdir : ∀ index e, n.isDirectory = true → simplefsGetDirentry io n.inodeIdx index = some e →
    ∃ s, e.HasName s ∧ s.strlen + 1 ≤ NODE_NAME_SIZE

/-- `vfs_resolve_path` writes into `token` at indices below 256, and at every node that it gets
to the names are copied within their 32 bytes. -/
structure PathInBounds (io : Io) (vfsRoot currentDir : VfsNode) (path : CStr) : Prop where
  token : vfsResolvePath io vfsRoot currentDir path ≠ none
  names : ∀ front n, front <+: components path →
    lookupAll io (startOf vfsRoot currentDir path) front = some n → NameCopiesFit io n

/-- No component that is reached, all lookups before it having succeeded, has more than 255
bytes. -/
def ReachedComponentsShort (io : Io) (vfsRoot currentDir : VfsNode) (path : CStr) : Prop :=
  ∀ front c back, components path = front ++ c :: back →
    (lookupAll io (startOf vfsRoot currentDir path) front).isSome → c.strlen ≤ 255

theorem reachedShort_iff {io : Io} {vfsRoot currentDir : VfsNode} {path : CStr} :
    ReachedShort io (startOf vfsRoot currentDir path) (tokens 47 path.bytes) ↔
      ReachedComponentsShort io vfsRoot currentDir path := by
  rw [← map_bytes_components]
  constructor
  · intro h front c back he hw
    apply Nat.le_of_lt_succ
    apply h (front.map CStr.bytes) c.bytes (back.map CStr.bytes)
    · rw [he, List.map_append, List.map_cons]
    · rw [walk_map_bytes]
      exact hw
  · intro h front t back he hw
    obtain ⟨front', rest, hsplit, rfl, hrest⟩ := List.map_eq_append_iff.1 he
    obtain ⟨c, back', rfl, rfl, -⟩ := List.map_eq_cons_iff.1 hrest
    rw [walk_map_bytes] at hw
    exact Nat.lt_succ_of_le (h front' c back' hsplit hw)

/-- In a directory tree, no name is longer than the entry it was found in. -/
theorem NodeOk.nameCopiesFit {io : Io} (h : FsInv io.disk) {n : VfsNode}
    (hn : NodeOk io.disk n) : NameCopiesFit io n := by
  constructor
  · intro name m hne he
    unfold vfsLookup at he
    dsimp only at he
    split_ifs at he with hdir hdot hneg
    · rw [CStr.strcmp_eq_zero_iff] at hdot
      exact absurd (CStr.Holds.unique (fun _ _ => rfl) hdot) hne
    · have hd := hn.dir (by simpa using hdir)
      rcases simplefsLookup_cases h.tree hd name with ⟨hl, _⟩ | ⟨j, _, _, hname, _⟩
      · omega
      · have := hname.1
        simp only [NODE_NAME_SIZE]
        omega
  · intro index e hdir he
    obtain ⟨j, hj, hp, rfl⟩ := simplefsGetDirentry_some he
    obtain ⟨⟨s, hs⟩, -⟩ := h.tree.entry _ (hn.dir hdir) j hj hp
    refine ⟨s, hs, ?_⟩
    have := hs.1
    simp only [NODE_NAME_SIZE]
    omega

theorem lookupAll_nodeOk {io : Io} (h : FsInv io.disk) {names : List CStr} {n m : VfsNode}
    (hn : NodeOk io.disk n) (he : lookupAll io n names = some m) : NodeOk io.disk m := by
  induction names generalizing n with
  | nil =>
      cases he
      exact hn
  | cons c names ih =>
      obtain ⟨next, hnext, hrest⟩ := Option.bind_eq_some_iff.1 he
      exact ih (vfsLookup_nodeOk h hn hnext) hrest

theorem pathInBounds_iff {io : Io} (h : FsInv io.disk) {vfsRoot currentDir : VfsNode}
    (hr : NodeOk io.disk vfsRoot) (hc : NodeOk io.disk currentDir) (path : CStr) :
    PathInBounds io vfsRoot currentDir path ↔
      ReachedComponentsShort io vfsRoot currentDir path := by
  have hstart : NodeOk io.disk (startOf vfsRoot currentDir path) := by
    unfold startOf
    split_ifs
    · exact hr
    · exact hc
  rw [← reachedShort_iff, ← vfsResolvePath_ne_none_iff]
  exact ⟨fun hin => hin.token, fun htoken =>
    ⟨htoken, fun _ _ _ hn => (lookupAll_nodeOk h hstart hn).nameCopiesFit h⟩⟩

/-- **Path parsing stays inside its buffers exactly when no component that is reached has more
than 255 bytes**, whatever happened since the format and whatever node the path starts at. -/
theorem run_path_in_bounds_iff (d : Disk) (hd : needsFormat d = true) (es : List VfsEvent)
    (currentDir : VfsNode) (hc : currentDir ∈ ((VfsState.init d).run es).nodes) (path : CStr) :
    PathInBounds ((VfsState.init d).run es).io (vfsInit ⟨d, []⟩).2.2 currentDir path ↔
      ReachedComponentsShort ((VfsState.init d).run es).io (vfsInit ⟨d, []⟩).2.2 currentDir
        path := by
  have hok := (VfsState.Ok.init hd).run es
  have hroot := VfsState.Ok.isNode_root hd es
  refine pathInBounds_iff hok.inv ⟨fun _ => ?_, fun hf => ?_⟩ (hok.nodes _ hc) path
  · rw [hroot.idx]
    exact hok.inv.tree.root
  · rw [hroot.isDirectory hok.inv.tree.root.dir] at hf
    cases hf

/-- `/a/b`, with `a` a directory in the root: both components are reached. -/
theorem run_path_in_bounds_below : needsFormat blankDisk = true ∧
    components (CStr.child pathA (fileName 1)) = [fileName 0, fileName 1] ∧
    (PathInBounds ((VfsState.init blankDisk).run firstMkdir).io (vfsInit ⟨blankDisk, []⟩).2.2
        (vfsInit ⟨blankDisk, []⟩).2.2 (CStr.child pathA (fileName 1)) ↔
      ReachedComponentsShort ((VfsState.init blankDisk).run firstMkdir).io
        (vfsInit ⟨blankDisk, []⟩).2.2 (vfsInit ⟨blankDisk, []⟩).2.2
        (CStr.child pathA (fileName 1))) := by
  have hd : needsFormat blankDisk = true := by decide
  refine ⟨hd, ?_, run_path_in_bounds_iff blankDisk hd firstMkdir _ root_mem_firstMkdir _⟩
  rw [components_child, components_pathA, components_fileName]
  rfl

/-- 256 times the letter `a`. -/
def longName : CStr :=
  ⟨List.replicate 256 97, fun h => absurd (List.eq_of_mem_replicate h) (by decide)⟩

theorem strlen_longName : longName.strlen = 256 := List.length_replicate

theorem components_longName : components longName = [longName] := by
  refine components_of_slashFree (fun h => ?_) fun h => ?_
  · exact absurd (List.eq_of_mem_replicate h) (by decide)
  · have hlen := strlen_longName
    rw [CStr.strlen, h] at hlen
    cases hlen

theorem not_reached_longName (io : Io) (vfsRoot currentDir : VfsNode) :
    ¬ ReachedComponentsShort io vfsRoot currentDir longName := by
  intro h
  have hlen := h [] longName [] components_longName rfl
  rw [strlen_longName] at hlen
  omega

/-- A component of 256 bytes at the root of a blank disk: `token[256]` is written. -/
theorem long_name_out_of_bounds : needsFormat blankDisk = true ∧
    ¬ PathInBounds ((VfsState.init blankDisk).run []).io (vfsInit ⟨blankDisk, []⟩).2.2
      (vfsInit ⟨blankDisk, []⟩).2.2 longName := by
  refine ⟨by decide, fun hin => ?_⟩
  apply not_reached_longName
  rw [← reachedShort_iff, ← vfsResolvePath_ne_none_iff]
  exact hin.token

end NosmeriOs.Vfs
