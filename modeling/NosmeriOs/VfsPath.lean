import NosmeriOs.Paths
import NosmeriOs.VfsFiles

/-! # The path of a node (`fs/vfs.cpp`)

`vfs_get_path` climbs from a node to the root, finds the name of each node in its parent's
table, and writes the path into its buffer from the end; `vfs_resolve_path` reads a path from
the front.  The two are compared through the labels of the directory tree.

* `PathTo d names k`: entries with these names lead from the root to inode `k`, a trail of
  `Edge`s.
* `vfsGetPath_holds`: what `vfs_get_path` leaves in the buffer is the names of the node, each
  behind a `/`.
* `vfsResolvePath_tokens`: `vfs_resolve_path` walks along the tokens of the path.  The walk
  follows the names that lead to a node when none of them has a `/` in it
  (`PathTo.resolve`), and never gets anywhere else (`PlacedBy.walk`). -/

namespace NosmeriOs.Vfs

open Bytes SimpleFs Paths

/-! ### `vfs_get_path` -/

/-- `memcpy` from outside the buffer; addresses are relative to `out_buf`. -/
def copyIn (buf : ℤ → UInt8) (dst : ℤ) (src : ℕ → UInt8) (count : ℕ) : ℤ → UInt8 :=
  (List.range count).foldl (fun b (i : ℕ) => Function.update b (dst + i) (src i)) buf

/-- `memcpy` from one place of the buffer to another, byte after byte. -/
def copyWithin (buf : ℤ → UInt8) (dst src : ℤ) (count : ℕ) : ℤ → UInt8 :=
  (List.range count).foldl (fun b (i : ℕ) => Function.update b (dst + i) (b (src + i))) buf

/-- The scan of `parent`'s table for the entry of `cur`; it gives `cur` its name there. -/
def findIn (io : Io) (parent cur : VfsNode) : VfsNode :=
  ((List.range ENTRIES_PER_BLOCK).findSome? fun (i : ℕ) =>
    (vfsReaddir io parent i).filter fun temp => cur.inodeIdx = temp.inodeIdx).getD cur

/-- The loop of `vfs_get_path`: the buffer and `idx` when `cur` has become the root. -/
def getPathLoop (io : Io) (cur : VfsNode) (buf : ℤ → UInt8) (idx : ℤ) :
    Option ((ℤ → UInt8) × ℤ) :=
  if cur.inodeIdx = 0 then some (buf, idx)
  else match vfsLookup io cur dotdot with
  | none => none
  | some parent =>
      let name := (findIn io parent cur).name
      if idx < name.strlen then none
      else
        let buf := copyIn buf (idx - name.strlen + 1) name.byteAt name.strlen
        let buf := Function.update buf (idx - name.strlen) 47
        if _h : idx - name.strlen - 1 < 0 then none
        else getPathLoop io parent buf (idx - name.strlen - 1)
termination_by idx.toNat
decreasing_by omega

/-- `vfs_get_path`, with the buffer a successful call leaves behind. -/
def vfsGetPath (io : Io) (node : VfsNode) (bufSize : UInt32) (buf : ℤ → UInt8) :
    Option (ℤ → UInt8) :=
  if bufSize = 0 then none
  else if node.inodeIdx = 0 then some (copyIn buf 0 slash.byteAt 2)
  else
    let idx := cInt (bufSize - 1)
    match getPathLoop io node (Function.update buf idx 0) (idx - 1) with
    | none => none
    | some (buf, idx) => some (copyWithin buf 0 (idx + 1) (bufSize.toNat - idx - 1).toNat)

theorem copyIn_apply (buf : ℤ → UInt8) (dst : ℤ) (src : ℕ → UInt8) (count : ℕ) (a : ℤ) :
    copyIn buf dst src count a =
      if dst ≤ a ∧ a < dst + count then src (a - dst).toNat else buf a := by
  induction count with
  | zero => rw [if_neg (by omega)]; rfl
  | succ n ih =>
      have hs : copyIn buf dst src (n + 1) =
          Function.update (copyIn buf dst src n) (dst + n) (src n) := by
        simp [copyIn, List.range_succ]
      rw [hs, Function.update_apply, ih]
      split_ifs with h1 h2 h3 h3 h4
      · rw [h1]
        congr 1
        omega
      · omega
      · rfl
      · omega
      · omega
      · rfl

/-- A copy towards the start of the buffer reads each byte before it is overwritten. -/
theorem copyWithin_apply (buf : ℤ → UInt8) {dst src : ℤ} (h : dst ≤ src) (count : ℕ) (a : ℤ) :
    copyWithin buf dst src count a =
      if dst ≤ a ∧ a < dst + count then buf (a - dst + src) else buf a := by
  induction count generalizing a with
  | zero => rw [if_neg (by omega)]; rfl
  | succ n ih =>
      have hs : copyWithin buf dst src (n + 1) =
          Function.update (copyWithin buf dst src n) (dst + n)
            (copyWithin buf dst src n (src + n)) := by
        simp [copyWithin, List.range_succ]
      rw [hs, Function.update_apply, ih, ih]
      split_ifs with h1 h2 h3 h3 h4 h5
      all_goals first | omega | rfl | (congr 1; omega)

/-! ### Names on the way from the root -/

/-- An entry `s` of directory `i`, other than `.` and `..`, leads to inode `k`. -/
def Edge (d : Disk) (i : ℕ) (s : CStr) (k : ℕ) : Prop :=
  ∃ j, Child d i j k ∧ (slot d i j).HasName s

def PathTo (d : Disk) : List CStr → ℕ → Prop := Trail (Edge d) 0

theorem forest_edge {d : Disk} (h : TreeInv d) : Forest (Edge d) 0 := by
  constructor
  · rintro i s i' s' k ⟨j, hc, hs⟩ ⟨j', hc', hs'⟩
    obtain ⟨rfl, rfl⟩ := h.childUnique _ _ _ _ _ hc hc'
    exact ⟨rfl, hs.unique hs'⟩
  · rintro i s ⟨j, hc, -⟩
    exact (h.child _ _ _ hc).1 rfl

section edges

variable {d d' : Disk} {i k : ℕ} {s : CStr}

theorem Edge.grows (hg : Grows d d') (he : Edge d i s k) : Edge d' i s k := by
  obtain ⟨j, ⟨hi, h2, hj, hp, hx⟩, hs⟩ := he
  have e := hg.entry i hi j hj hp
  exact ⟨j, ⟨hg.dir i hi, h2, hj, by rw [e]; exact hp, by rw [e]; exact hx⟩, by rw [e]; exact hs⟩

theorem Edge.isDirectory (he : Edge d i s k) : IsDirectory d i := by
  obtain ⟨j, hc, -⟩ := he
  exact hc.dir

theorem Edge.strlen (he : Edge d i s k) : s.strlen < 28 ∧ s.strlen ≠ 0 := by
  obtain ⟨j, hc, hs⟩ := he
  exact ⟨hs.1, hs.isPresent_iff.1 hc.present⟩

theorem Edge.ne_dot (h : TreeInv d) (he : Edge d i s k) : s ≠ dot := by
  rintro rfl
  obtain ⟨j, hc, hs⟩ := he
  have h0 := (h.dot i hc.dir).1
  have hj := hc.two_le
  have := h.names i hc.dir j hc.lt 0 (by omega) hc.present (h0.isPresent_iff.2 (by decide)) _ hs h0
  omega

/-- A name of a directory leads to one inode. -/
theorem Edge.unique (h : TreeInv d) {k' : ℕ} (he : Edge d i s k) (he' : Edge d i s k') :
    k = k' := by
  obtain ⟨j, hc, hs⟩ := he
  obtain ⟨j', hc', hs'⟩ := he'
  obtain rfl := h.names i hc.dir j hc.lt j' hc'.lt hc.present hc'.present s hs hs'
  rw [← hc.idx, hc'.idx]

theorem PathTo.grows (hg : Grows d d') {names : List CStr} (hp : PathTo d names k) :
    PathTo d' names k :=
  hp.mono fun _ _ _ he => he.grows hg

theorem PathTo.isDirectory (h : TreeInv d) {names : List CStr} (hp : PathTo d names k)
    (hd : (inodeAt d k).isDir = true) : IsDirectory d k := by
  cases hp with
  | nil => exact h.root
  | snoc _ he =>
      obtain ⟨j, hc, -⟩ := he
      exact ((h.child _ _ _ hc).2 hd).1

theorem PathTo.strlen {names : List CStr} (hp : PathTo d names k) :
    ∀ s ∈ names, s.strlen < 28 ∧ s.strlen ≠ 0 := by
  induction hp with
  | nil => simp
  | snoc _ he ih =>
      intro t ht
      rcases List.mem_append.1 ht with ht | ht
      · exact ih t ht
      · rw [List.mem_singleton.1 ht]
        exact he.strlen

/-- Only one entry of a directory of the tree leads to a node below it: `.` and `..` do not. -/
theorem PathTo.entry_unique (h : TreeInv d) {names : List CStr} (hp : PathTo d names i) {j j' : ℕ}
    (hc : Child d i j k) (hs : (slot d i j).HasName s) (hj' : j' < 16)
    (hp' : (slot d i j').isPresent = true) (hx : (slot d i j').inodeIdx.toNat = k) : j' = j := by
  have hf := forest_edge h
  have hk : PathTo d (names ++ [s]) k := hp.snoc ⟨j, hc, hs⟩
  by_cases h2 : 2 ≤ j'
  · exact (h.childUnique _ _ _ _ _ ⟨hc.dir, h2, hj', hp', hx⟩ hc).2
  · exfalso
    obtain rfl | rfl : j' = 0 ∨ j' = 1 := by omega
    · rw [(h.dot i hc.dir).2] at hx
      subst hx
      have := congrArg List.length (hp.unique hf hk)
      simp at this
    · -- the parent of `i` is above `k`
      cases hp with
      | nil =>
          rw [h.rootUp] at hx
          exact (h.child _ _ _ hc).1 hx.symm
      | snoc hup he =>
          obtain ⟨j₀, hc₀, -⟩ := he
          rw [((h.child _ _ _ hc₀).2 hc.dir.dir).2] at hx
          subst hx
          have := congrArg List.length (hup.unique hf hk)
          simp at this

end edges

/-! ### What `vfs_get_path` writes -/

theorem simplefsGetDirentry_of_present {io : Io} {k : UInt32} (hk : IsDirectory io.disk k.toNat)
    {j : ℕ} (hj : j < 16) (hp : (slot io.disk k.toNat j).isPresent = true) :
    simplefsGetDirentry io k j = some (slot io.disk k.toNat j) := by
  have hentry : getEntry (ataReadSector io ((readInode io k).block 0).toNat) (j : ℤ).toNat =
      slot io.disk k.toNat j := rfl
  have hdir : (readInode io k).isDir = true := hk.dir
  unfold simplefsGetDirentry
  dsimp only
  rw [if_neg (by simp only [ENTRIES_PER_BLOCK]; omega), hdir, hentry, hp]
  rfl

/-- The scan finds the name under which the node is entered in its parent. -/
theorem findIn_name {io : Io} (h : FsInv io.disk) {parent cur : VfsNode}
    (hdir : parent.isDirectory = true) {names : List CStr} {s : CStr}
    (hp : PathTo io.disk names parent.inodeIdx.toNat)
    (he : Edge io.disk parent.inodeIdx.toNat s cur.inodeIdx.toNat) :
    (findIn io parent cur).name = s := by
  obtain ⟨j, hc, hs⟩ := he
  have hread : ∀ i : ℕ, vfsReaddir io parent i = (simplefsGetDirentry io parent.inodeIdx i).map
      fun e => nodeOf e.name e.inodeIdx parent.inodeIdx
        ((simplefsGetInode io e.inodeIdx).getD (Inode.fresh 0)) := fun i => if_neg (by simp [hdir])
  unfold findIn
  cases hf : (List.range ENTRIES_PER_BLOCK).findSome? fun (i : ℕ) =>
      (vfsReaddir io parent i).filter fun temp => cur.inodeIdx = temp.inodeIdx with
  | none =>
      exfalso
      have hj := List.findSome?_eq_none_iff.1 hf j (List.mem_range.2 hc.lt)
      have hx : cur.inodeIdx = (slot io.disk parent.inodeIdx.toNat j).inodeIdx :=
        UInt32.toNat.inj hc.idx.symm
      rw [hread, simplefsGetDirentry_of_present hc.dir hc.lt hc.present] at hj
      simp [nodeOf, hx] at hj
  | some temp =>
      obtain ⟨i, -, hi⟩ := List.exists_of_findSome?_eq_some hf
      obtain ⟨hi, hx⟩ := Option.filter_eq_some_iff.1 hi
      rw [hread] at hi
      obtain ⟨e, hget, rfl⟩ := Option.map_eq_some_iff.1 hi
      obtain ⟨i', hi', hpr, rfl⟩ := simplefsGetDirentry_some hget
      have hx' : cur.inodeIdx = (slot io.disk parent.inodeIdx.toNat i').inodeIdx :=
        of_decide_eq_true hx
      obtain rfl := hp.entry_unique h.tree hc hs hi' hpr (by rw [hx'])
      exact hs.name_eq

/-- The buffer has these bytes from the address `a` on. -/
def Reads (buf : ℤ → UInt8) (a : ℤ) (l : List UInt8) : Prop :=
  ∀ k < l.length, buf (a + k) = l.getD k 0

theorem reads_append {buf : ℤ → UInt8} {a : ℤ} {l r : List UInt8} :
    Reads buf a (l ++ r) ↔ Reads buf a l ∧ Reads buf (a + l.length) r := by
  constructor
  · intro h
    refine ⟨fun k hk => ?_, fun k hk => ?_⟩
    · rw [h k (by rw [List.length_append]; omega), List.getD_append _ _ _ _ hk]
    · have := h (l.length + k) (by rw [List.length_append]; omega)
      rw [List.getD_append_right _ _ _ _ (by omega), Nat.add_sub_cancel_left] at this
      rw [← this]
      congr 1
      push_cast
      ring
  · rintro ⟨hl, hr⟩ k hk
    rw [List.length_append] at hk
    rcases Nat.lt_or_ge k l.length with hlt | hge
    · rw [List.getD_append _ _ _ _ hlt]
      exact hl k hlt
    · rw [List.getD_append_right _ _ _ _ hge, ← hr (k - l.length) (by omega)]
      congr 1
      omega

theorem Reads.congr {buf buf' : ℤ → UInt8} {a : ℤ} {l : List UInt8} (h : Reads buf a l)
    (he : ∀ x, a ≤ x → x < a + l.length → buf' x = buf x) : Reads buf' a l := by
  intro k hk
  rw [he _ (by omega) (by omega)]
  exact h k hk

/-- The name of a node is put before what the buffer holds. -/
theorem reads_copyIn {buf : ℤ → UInt8} {idx : ℤ} {s : CStr} {l : List UInt8}
    (h : Reads buf (idx + 1) l) :
    Reads (Function.update (copyIn buf (idx - s.strlen + 1) s.byteAt s.strlen)
      (idx - s.strlen) 47) (idx - s.strlen - 1 + 1) (47 :: s.bytes ++ l) := by
  have hstart : idx - s.strlen - 1 + 1 = idx - s.strlen := by ring
  rw [hstart, ← List.singleton_append, List.append_assoc, reads_append, reads_append]
  refine ⟨fun k hk => ?_, fun k hk => ?_, ?_⟩
  · have hk0 : k = 0 := by simpa using hk
    subst hk0
    simp
  · have hk' : k < s.strlen := hk
    rw [List.length_singleton, Function.update_of_ne (by push_cast; omega), copyIn_apply,
      if_pos (by push_cast; omega)]
    unfold CStr.byteAt
    congr 1
    push_cast
    omega
  · have hend : idx - s.strlen + ([47] : List UInt8).length + s.bytes.length = idx + 1 := by
      simp only [CStr.strlen, List.length_singleton]
      push_cast
      ring
    rw [hend]
    refine h.congr fun x hx _ => ?_
    rw [Function.update_of_ne (by omega), copyIn_apply, if_neg (by omega)]

/-- The bytes of a path behind its root. -/
def pathBytes (names : List CStr) : List UInt8 := join 47 (names.map CStr.bytes)

theorem pathBytes_append (names : List CStr) (s : CStr) :
    pathBytes (names ++ [s]) = pathBytes names ++ 47 :: s.bytes := by
  simp [pathBytes, join_append, join_singleton]

/-- The `..` entry of a node below `i` leads to `i`. -/
theorem vfsLookup_dotdot {io : Io} (h : FsInv io.disk) {cur : VfsNode}
    (hdir : cur.isDirectory = true) (hd : IsDirectory io.disk cur.inodeIdx.toNat) :
    ∃ parent, vfsLookup io cur dotdot = some parent ∧ parent.isDirectory = true ∧
      parent.inodeIdx = (slot io.disk cur.inodeIdx.toNat 1).inodeIdx := by
  obtain ⟨hname, hup⟩ := h.tree.dotdot _ hd
  have hp := hname.isPresent_iff.2 (by decide)
  refine ⟨_, vfsLookup_of_slot h hdir hd (by omega) hp hname dot_ne_dotdot.symm, ?_, rfl⟩
  rw [isDirectory_nodeOf]
  exact hup.dir

/-- One round of the loop: it finds the name of `cur` and its parent. -/
theorem findIn_up {io : Io} (h : FsInv io.disk) {front : List CStr} {i k : ℕ} {s : CStr}
    (ht : PathTo io.disk front i) (he : Edge io.disk i s k) {cur : VfsNode}
    (hk : cur.inodeIdx.toNat = k) (hdir : cur.isDirectory = true)
    (hkd : (inodeAt io.disk k).isDir = true) :
    cur.inodeIdx ≠ 0 ∧ (inodeAt io.disk i).isDir = true ∧
      ∃ parent, vfsLookup io cur dotdot = some parent ∧ parent.isDirectory = true ∧
        parent.inodeIdx.toNat = i ∧ (findIn io parent cur).name = s := by
  have htree := h.tree
  have hd : IsDirectory io.disk k := PathTo.isDirectory htree (ht.snoc he) hkd
  obtain ⟨j, hc, hs⟩ := he
  obtain ⟨hk0, hup⟩ := htree.child _ _ _ hc
  have h0 : cur.inodeIdx ≠ 0 := by
    intro h0
    rw [h0] at hk
    exact hk0 hk.symm
  obtain ⟨parent, hlook, hpdir, hpx⟩ := vfsLookup_dotdot h hdir (by rw [hk]; exact hd)
  have hpi : parent.inodeIdx.toNat = i := by
    rw [hpx, hk]
    exact (hup hkd).2
  exact ⟨h0, hc.dir.dir, parent, hlook, hpdir, hpi,
    findIn_name h hpdir (by rw [hpi]; exact ht) (by rw [hpi, hk]; exact ⟨j, hc, hs⟩)⟩

/-- The loop puts the names on the way to `cur` before what the buffer holds. -/
theorem getPathLoop_reads {io : Io} (h : FsInv io.disk) {names : List CStr} {k : ℕ}
    (hp : PathTo io.disk names k) : ∀ {cur : VfsNode} {buf out : ℤ → UInt8} {idx idx' : ℤ}
      {l : List UInt8}, cur.inodeIdx.toNat = k → cur.isDirectory = true →
      (inodeAt io.disk k).isDir = true → Reads buf (idx + 1) l →
      getPathLoop io cur buf idx = some (out, idx') →
      Reads out (idx' + 1) (pathBytes names ++ l) ∧ idx' + (pathBytes names).length = idx ∧
        (names ≠ [] → 0 ≤ idx') := by
  induction hp with
  | nil =>
      intro cur buf out idx idx' l hk _ _ hl hout
      have h0 : cur.inodeIdx = 0 := UInt32.toNat.inj hk
      rw [getPathLoop, if_pos h0] at hout
      cases hout
      exact ⟨hl, by simp [pathBytes], fun hn => absurd rfl hn⟩
  | @snoc front i s k ht he ih =>
      intro cur buf out idx idx' l hk hdir hkd hl hout
      obtain ⟨h0, hid, parent, hlook, hpdir, hpi, hname⟩ := findIn_up h ht he hk hdir hkd
      rw [getPathLoop, if_neg h0, hlook] at hout
      dsimp only at hout
      rw [hname] at hout
      split_ifs at hout with hlt hneg
      obtain ⟨hreads, hidx, hpos⟩ := ih hpi hpdir hid (reads_copyIn hl) hout
      refine ⟨?_, ?_, fun _ => ?_⟩
      · rw [pathBytes_append, List.append_assoc]
        exact hreads
      · rw [pathBytes_append, List.length_append, List.length_cons]
        simp only [CStr.strlen] at hidx
        push_cast
        omega
      · by_cases hf : front = []
        · subst hf
          simp only [pathBytes, List.map_nil, join_nil, List.length_nil] at hidx
          omega
        · exact hpos hf

/-- The path of a node, from the names on the way to it. -/
def pathText (names : List CStr) : CStr :=
  if names = [] then slash
  else ⟨pathBytes names, by
    intro h0
    obtain ⟨t, ht, hmem⟩ := List.mem_flatMap.1 h0
    obtain ⟨s, -, rfl⟩ := List.mem_map.1 ht
    rcases List.mem_cons.1 hmem with he | hmem
    · exact absurd he (by decide)
    · exact s.noNul hmem⟩

theorem bytes_pathText {names : List CStr} (h : names ≠ []) :
    (pathText names).bytes = pathBytes names := by
  rw [pathText, if_neg h]

theorem cInt_cases (w : UInt32) :
    cInt w = (w.toNat : ℤ) ∧ w.toNat < 2 ^ 31 ∨ cInt w < 0 ∧ 2 ^ 31 ≤ w.toNat := by
  have hw := w.toNat_lt
  have he : w.toBitVec.toNat = w.toNat := rfl
  unfold cInt
  rw [BitVec.toInt_eq_toNat_cond, he]
  split_ifs with h
  · exact Or.inl ⟨rfl, by omega⟩
  · exact Or.inr ⟨by omega, by omega⟩

/-- The last copy moves the path to the start of the buffer. -/
theorem holds_copyWithin {buf : ℤ → UInt8} {idx : ℤ} {s : CStr} (h0 : 0 ≤ idx)
    (h : Reads buf (idx + 1) (s.bytes ++ [0])) :
    CStr.Holds (fun k : ℕ => copyWithin buf 0 (idx + 1) (s.strlen + 1) k) s := by
  intro k hk
  have hget : (s.bytes ++ [0]).getD k 0 = s.byteAt k := by
    rcases Nat.lt_or_ge k s.bytes.length with hlt | hge
    · rw [List.getD_append _ _ _ _ hlt]
      rfl
    · obtain rfl : k = s.strlen := le_antisymm hk hge
      rw [List.getD_append_right _ _ _ _ hge, CStr.byteAt_strlen]
      simp [CStr.strlen]
  have hread := h k (by simpa [CStr.strlen] using Nat.lt_succ_of_le hk)
  dsimp only
  rw [copyWithin_apply _ (by omega), if_pos (by omega), ← hget, ← hread]
  congr 1
  ring

/-- **`vfs_get_path` leaves the path of the node.** -/
theorem vfsGetPath_holds {io : Io} (h : FsInv io.disk) {n : VfsNode} (hdir : n.isDirectory = true)
    (hd : IsDirectory io.disk n.inodeIdx.toNat) {names : List CStr}
    (hp : PathTo io.disk names n.inodeIdx.toNat) {bufSize : UInt32} {buf out : ℤ → UInt8}
    (hout : vfsGetPath io n bufSize buf = some out) :
    CStr.Holds (fun k : ℕ => out k) (pathText names) ∧
      (2 ≤ bufSize.toNat → (pathText names).strlen < bufSize.toNat) := by
  have hf := forest_edge h.tree
  unfold vfsGetPath at hout
  split_ifs at hout with hsize h0
  · -- the root
    cases hout
    rw [h0] at hp
    have hnil : names = [] := hp.unique hf .nil
    subst hnil
    refine ⟨fun k hk => ?_, fun h2 => h2⟩
    have hk' : k < 2 := Nat.lt_succ_of_le hk
    dsimp only
    rw [copyIn_apply, if_pos (by omega)]
    rfl
  · have hnames : names ≠ [] := by
      rintro rfl
      exact h0 (UInt32.toNat.inj hp.eq_root)
    have hzero : Reads (Function.update buf (cInt (bufSize - 1)) 0)
        (cInt (bufSize - 1) - 1 + 1) [0] := by
      intro k hk
      obtain rfl : k = 0 := by simpa using hk
      simp
    have hbig : (bufSize - 1).toNat = bufSize.toNat - 1 := by
      have hne : bufSize.toNat ≠ 0 := fun e => hsize (UInt32.toNat.inj e)
      have hle : (1 : UInt32) ≤ bufSize := UInt32.le_iff_toNat_le.2 (Nat.one_le_iff_ne_zero.2 hne)
      rw [UInt32.toNat_sub_of_le _ _ hle]
      rfl
    dsimp only at hout
    cases hl : getPathLoop io n (Function.update buf (cInt (bufSize - 1)) 0)
        (cInt (bufSize - 1) - 1) with
    | none =>
        rw [hl] at hout
        cases hout
    | some r =>
        obtain ⟨b, idx⟩ := r
        rw [hl] at hout
        cases hout
        obtain ⟨hreads, hidx, hpos⟩ := getPathLoop_reads h hp rfl hdir hd.dir hzero hl
        have hidx0 := hpos hnames
        rw [← bytes_pathText hnames] at hreads hidx
        have hlen : (pathText names).bytes.length = (pathText names).strlen := rfl
        obtain ⟨hc, -⟩ | ⟨hc, -⟩ := cInt_cases (bufSize - 1)
        · have hcount : ((bufSize.toNat : ℤ) - idx - 1).toNat = (pathText names).strlen + 1 := by
            omega
          refine ⟨?_, fun _ => by omega⟩
          rw [hcount]
          exact holds_copyWithin hidx0 hreads
        · omega

/-! ### What `vfs_resolve_path` reads -/

/-- The nodes along a list of tokens. -/
def walk (io : Io) (cur : VfsNode) (ts : List (List UInt8)) : Option VfsNode :=
  ts.foldlM (resolveStep io) cur

theorem walk_cons (io : Io) (cur : VfsNode) (t : List UInt8) (ts : List (List UInt8)) :
    walk io cur (t :: ts) = (resolveStep io cur t).bind fun next => walk io next ts := rfl

theorem walk_append (io : Io) (cur : VfsNode) (ts us : List (List UInt8)) :
    walk io cur (ts ++ us) = (walk io cur ts).bind fun next => walk io next us :=
  List.foldlM_append

/-- The tokenizer walks along the tokens of what is left of the path. -/
theorem resolveLoop_eq_walk {io : Io} {path : List UInt8} : ∀ {cur : VfsNode} {token : List UInt8}
    {r : Option VfsNode}, 47 ∉ token → resolveLoop io path cur token = some r →
      r = walk io cur (tokens 47 (token ++ path)) := by
  induction path with
  | nil =>
      intro cur token r ht hr
      unfold resolveLoop at hr
      rw [List.append_nil]
      split_ifs at hr with h0
      · obtain rfl := List.length_eq_zero_iff.1 h0
        cases hr
        rw [tokens_nil]
        rfl
      · cases hr
        have hne : token ≠ [] := fun e => h0 (by simp [e])
        rw [tokens_eq_singleton ht hne, walk_cons]
        cases resolveStep io cur token with
        | none => rfl
        | some next => rfl
  | cons c rest ih =>
      intro cur token r ht hr
      unfold resolveLoop at hr
      split_ifs at hr with hc h0
      · obtain rfl := List.length_eq_zero_iff.1 h0
        subst hc
        rw [ih (by simp) hr]
        simp
      · have hne : token ≠ [] := fun e => h0 (by simp [e])
        subst hc
        rw [tokens_append_cons, tokens_eq_singleton ht hne, List.singleton_append, walk_cons]
        cases hs : resolveStep io cur token with
        | none =>
            rw [hs] at hr
            cases hr
            rfl
        | some next =>
            rw [hs] at hr
            rw [ih (by simp) hr]
            rfl
      · have ht' : 47 ∉ token ++ [c] := by simp [ht, Ne.symm hc]
        rw [ih ht' hr, List.append_assoc, List.singleton_append]

/-- Each token that is reached, all lookups before it having succeeded, fits into
`token[256]`. -/
def ReachedShort (io : Io) (cur : VfsNode) (ts : List (List UInt8)) : Prop :=
  ∀ front t back, ts = front ++ t :: back → (walk io cur front).isSome → t.length < TOKEN_SIZE

theorem reachedShort_nil (io : Io) (cur : VfsNode) : ReachedShort io cur [] := by
  intro front t back he
  simp at he

theorem reachedShort_cons {io : Io} {cur : VfsNode} {t : List UInt8} {ts : List (List UInt8)} :
    ReachedShort io cur (t :: ts) ↔
      t.length < TOKEN_SIZE ∧ ∀ next, resolveStep io cur t = some next → ReachedShort io next ts := by
  constructor
  · intro h
    refine ⟨h [] t ts rfl rfl, fun next hs front u back he hw => ?_⟩
    apply h (t :: front) u back (by rw [he]; rfl)
    rw [walk_cons, hs]
    exact hw
  · rintro ⟨ht, h⟩ front u back he hw
    cases front with
    | nil =>
        cases he
        exact ht
    | cons t' front =>
        obtain ⟨rfl, rfl⟩ := List.cons.inj he
        rw [walk_cons] at hw
        cases hs : resolveStep io cur t with
        | none => simp [hs] at hw
        | some next =>
            rw [hs] at hw
            exact h next hs front u back rfl hw

/-- The tokenizer stays within `token[256]` when every token that it gets to does. -/
theorem resolveLoop_ne_none_iff {io : Io} {path : List UInt8} : ∀ {cur : VfsNode}
    {token : List UInt8}, 47 ∉ token → (resolveLoop io path cur token ≠ none ↔
      ReachedShort io cur (tokens 47 (token ++ path))) := by
  induction path with
  | nil =>
      intro cur token ht
      unfold resolveLoop
      rw [List.append_nil]
      split_ifs with h0 hlong
      · obtain rfl := List.length_eq_zero_iff.1 h0
        simp [tokens_nil, reachedShort_nil]
      all_goals
        have hne : token ≠ [] := fun e => h0 (by simp [e])
        rw [tokens_eq_singleton ht hne, reachedShort_cons]
        simp only [reachedShort_nil, implies_true, and_true]
        simpa using hlong
  | cons c rest ih =>
      intro cur token ht
      unfold resolveLoop
      by_cases hc : c = 47
      · subst hc
        rw [if_pos rfl]
        by_cases h0 : token.length = 0
        · obtain rfl := List.length_eq_zero_iff.1 h0
          rw [List.length_nil, if_pos rfl, ih (by simp)]
          simp
        · have hne : token ≠ [] := fun e => h0 (by simp [e])
          rw [if_neg h0, tokens_append_cons, tokens_eq_singleton ht hne, List.singleton_append,
            reachedShort_cons]
          by_cases hlong : TOKEN_SIZE ≤ token.length
          · rw [if_pos hlong]
            simp [Nat.not_lt.2 hlong]
          · rw [if_neg hlong]
            cases resolveStep io cur token with
            | none => simpa using hlong
            | some next =>
                have hnext := @ih next [] (by simp)
                simp only [hnext, List.nil_append, Option.some.injEq,
                  forall_eq', Nat.not_le.1 hlong, true_and]
      · have ht' : 47 ∉ token ++ [c] := by simp [ht, Ne.symm hc]
        have hsplit : token ++ c :: rest = token ++ [c] ++ rest := by simp
        rw [if_neg hc, hsplit]
        by_cases hlong : TOKEN_SIZE ≤ token.length
        · -- one more character, and the token is longer still when it ends
          obtain ⟨t, ts, he, hle⟩ := tokens_of_prefix ht' (by simp) rest
          rw [if_pos hlong, he, reachedShort_cons]
          rw [List.length_append, List.length_singleton] at hle
          have hnot : ¬ t.length < TOKEN_SIZE := by omega
          simp [hnot]
        · rw [if_neg hlong]
          exact ih ht'

/-- Where `vfs_resolve_path` starts. -/
def startOf (vfsRoot currentDir : VfsNode) (path : CStr) : VfsNode :=
  if path.bytes.head? = some 47 then vfsRoot else currentDir

theorem tokens_dropWhile (p : List UInt8) :
    tokens 47 (p.dropWhile (· = 47)) = tokens 47 p := by
  induction p with
  | nil => rfl
  | cons c p ih =>
      by_cases hc : c = 47
      · subst hc
        rw [List.dropWhile_cons_of_pos (by simp), ih, tokens_cons_self]
      · rw [List.dropWhile_cons_of_neg (by simpa using hc)]

/-- **`vfs_resolve_path` walks along the tokens of the path.** -/
theorem vfsResolvePath_eq_walk {io : Io} {vfsRoot currentDir : VfsNode} {path : CStr}
    {r : Option VfsNode} (hr : vfsResolvePath io vfsRoot currentDir path = some r) :
    r = walk io (startOf vfsRoot currentDir path) (tokens 47 path.bytes) := by
  unfold vfsResolvePath at hr
  unfold startOf
  cases hb : path.bytes with
  | nil =>
      rw [hb] at hr
      cases hr
      rw [tokens_nil]
      rfl
  | cons c rest =>
      rw [hb] at hr
      dsimp only at hr
      by_cases hc : c = 47
      · rw [if_pos hc] at hr
        subst hc
        rw [resolveLoop_eq_walk (by simp) hr, List.nil_append, tokens_dropWhile, tokens_cons_self]
        rfl
      · rw [if_neg hc] at hr
        rw [resolveLoop_eq_walk (by simp) hr, if_neg (by simpa using hc)]
        rfl

/-- `vfs_resolve_path` writes outside `token[256]` when a token that it gets to is too long. -/
theorem vfsResolvePath_ne_none_iff {io : Io} {vfsRoot currentDir : VfsNode} {path : CStr} :
    vfsResolvePath io vfsRoot currentDir path ≠ none ↔
      ReachedShort io (startOf vfsRoot currentDir path) (tokens 47 path.bytes) := by
  unfold vfsResolvePath startOf
  cases hb : path.bytes with
  | nil => simp [tokens_nil, reachedShort_nil]
  | cons c rest =>
      dsimp only
      by_cases hc : c = 47
      · subst hc
        rw [if_pos rfl, resolveLoop_ne_none_iff (by simp), List.nil_append, tokens_dropWhile,
          tokens_cons_self, List.head?_cons, if_pos rfl]
      · rw [if_neg hc, resolveLoop_ne_none_iff (by simp), List.nil_append, List.head?_cons,
          if_neg (by simpa using hc)]

theorem vfsResolvePath_of_short {io : Io} {vfsRoot currentDir : VfsNode} {path : CStr}
    (h : ∀ t ∈ tokens 47 path.bytes, t.length < TOKEN_SIZE) :
    vfsResolvePath io vfsRoot currentDir path =
      some (walk io (startOf vfsRoot currentDir path) (tokens 47 path.bytes)) := by
  have hne : vfsResolvePath io vfsRoot currentDir path ≠ none := by
    rw [vfsResolvePath_ne_none_iff]
    intro front t back he _
    apply h
    rw [he]
    simp
  obtain ⟨r, hr⟩ := Option.ne_none_iff_exists'.1 hne
  rw [hr, vfsResolvePath_eq_walk hr]

/-! ### Where a walk leads -/

/-- The node is reached from the root along names with the property. -/
def PlacedBy (P : CStr → Prop) (d : Disk) (n : VfsNode) : Prop :=
  ∃ names, PathTo d names n.inodeIdx.toNat ∧ ∀ s ∈ names, P s

/-- A name that `vfs_resolve_path` does not split. -/
def SlashFree (s : CStr) : Prop := 47 ∉ s.bytes

theorem PlacedBy.grows {P : CStr → Prop} {d d' : Disk} (hg : Grows d d') {n : VfsNode}
    (h : PlacedBy P d n) : PlacedBy P d' n := by
  obtain ⟨names, hp, hP⟩ := h
  exact ⟨names, hp.grows hg, hP⟩

section entries

variable {P : CStr → Prop} {io : Io} {p : UInt32} {j : ℕ} {s : CStr}

/-- What an entry of a directory leads to: the directory itself, its parent, or a node below. -/
theorem placed_slot (h : TreeInv io.disk) {names : List CStr}
    (hp : PathTo io.disk names p.toNat) (hP : ∀ s ∈ names, P s)
    (hd : IsDirectory io.disk p.toNat) (hj : j < 16)
    (hpr : (slot io.disk p.toNat j).isPresent = true)
    (hs : (slot io.disk p.toNat j).HasName s) (hPs : P s) :
    ∃ names', PathTo io.disk names' (slot io.disk p.toNat j).inodeIdx.toNat ∧
      ∀ s ∈ names', P s := by
  by_cases h2 : 2 ≤ j
  · refine ⟨names ++ [s], hp.snoc ⟨j, ⟨hd, h2, hj, hpr, rfl⟩, hs⟩, fun t ht => ?_⟩
    rcases List.mem_append.1 ht with ht | ht
    · exact hP t ht
    · rw [List.mem_singleton.1 ht]
      exact hPs
  · obtain rfl | rfl : j = 0 ∨ j = 1 := by omega
    · rw [(h.dot _ hd).2]
      exact ⟨names, hp, hP⟩
    · generalize hk : p.toNat = k at hp hd ⊢
      cases hp with
      | nil =>
          rw [h.rootUp]
          exact ⟨[], .nil, by simp⟩
      | snoc hup he =>
          obtain ⟨j₀, hc₀, -⟩ := he
          rw [((h.child _ _ _ hc₀).2 hd.dir).2]
          exact ⟨_, hup, fun t ht => hP t (List.mem_append_left _ ht)⟩

end entries

variable {P : CStr → Prop} {io : Io} {n m : VfsNode}

theorem PlacedBy.vfsLookup (h : FsInv io.disk) (hn : NodeOk io.disk n) (hp : PlacedBy P io.disk n)
    {name : CStr} (hname : P name) (he : vfsLookup io n name = some m) : PlacedBy P io.disk m := by
  obtain ⟨names, hp, hP⟩ := hp
  unfold Vfs.vfsLookup at he
  dsimp only at he
  split_ifs at he with h1 h2 h3
  · cases he
    exact ⟨names, hp, hP⟩
  · have hdir := hn.dir (by simpa using h1)
    rcases simplefsLookup_cases h.tree hdir name with ⟨hl, _⟩ | ⟨j, hj, hpr, hs, hl, _⟩
    · rw [hl] at h3
      omega
    · rw [hl, cUInt_cInt] at he
      obtain ⟨inode, -, rfl⟩ := Option.map_eq_some_iff.1 he
      exact placed_slot h.tree hp hP hdir hj hpr hs hname

theorem PlacedBy.vfsReaddir (h : FsInv io.disk) (hn : NodeOk io.disk n)
    (hp : PlacedBy (fun _ => True) io.disk n) {index : ℤ} (he : vfsReaddir io n index = some m) :
    PlacedBy (fun _ => True) io.disk m := by
  obtain ⟨names, hp, hP⟩ := hp
  unfold Vfs.vfsReaddir at he
  split_ifs at he with h1
  have hdir := hn.dir (by simpa using h1)
  obtain ⟨e, hget, rfl⟩ := Option.map_eq_some_iff.1 he
  obtain ⟨j, hj, hpr, rfl⟩ := simplefsGetDirentry_some hget
  obtain ⟨⟨s, hs⟩, -⟩ := h.tree.entry _ hdir j hj hpr
  exact placed_slot h.tree hp hP hdir hj hpr hs trivial

/-- The name a token stands for. -/
theorem bytes_ofMem_token (token : List UInt8) :
    (CStr.ofMem token.length (token.getD · 0)).bytes = token.takeWhile (· ≠ 0) := by
  have h : (List.range token.length).map (token.getD · 0) = token := by
    apply List.ext_getElem
    · simp
    · intro k h1 h2
      rw [List.getElem_map, List.getElem_range, List.getD_eq_getElem _ _ h2]
  exact congrArg (List.takeWhile (· ≠ 0)) h

theorem resolveStep_bytes (io : Io) (cur : VfsNode) (s : CStr) :
    resolveStep io cur s.bytes = vfsLookup io cur s := by
  have hs : CStr.ofMem s.bytes.length (s.bytes.getD · 0) = s := by
    apply CStr.ext
    rw [bytes_ofMem_token, List.takeWhile_eq_self_iff]
    intro b hb
    have hb0 : b ≠ 0 := fun e => s.noNul (by rwa [e] at hb)
    simpa using hb0
  unfold resolveStep
  rw [hs]

theorem slashFree_token {token : List UInt8} (h : 47 ∉ token) :
    SlashFree (CStr.ofMem token.length (token.getD · 0)) := by
  unfold SlashFree
  rw [bytes_ofMem_token]
  intro hmem
  exact h ((List.takeWhile_prefix _).subset hmem)

/-- A walk adds to the names of its start only what its tokens stand for. -/
theorem PlacedBy.walk (h : FsInv io.disk) {ts : List (List UInt8)}
    (ht : ∀ t ∈ ts, P (CStr.ofMem t.length (t.getD · 0))) (hn : NodeOk io.disk n)
    (hp : PlacedBy P io.disk n) (he : walk io n ts = some m) : PlacedBy P io.disk m := by
  induction ts generalizing n with
  | nil =>
      cases he
      exact hp
  | cons t ts ih =>
      rw [walk_cons] at he
      obtain ⟨next, hs, hw⟩ := Option.bind_eq_some_iff.1 he
      exact ih (fun t ht' => ht t (List.mem_cons_of_mem _ ht')) (vfsLookup_nodeOk h hn hs)
        (hp.vfsLookup h hn (ht t List.mem_cons_self) hs) hw

/-- **No path leads along a name with a `/` in it.** -/
theorem PlacedBy.resolve (h : FsInv io.disk) {vfsRoot currentDir : VfsNode} {path : CStr}
    (hn : NodeOk io.disk (startOf vfsRoot currentDir path))
    (hp : PlacedBy SlashFree io.disk (startOf vfsRoot currentDir path))
    (he : vfsResolvePath io vfsRoot currentDir path = some (some m)) :
    PlacedBy SlashFree io.disk m :=
  hp.walk h (fun _ ht => slashFree_token (of_mem_tokens ht).1) hn (vfsResolvePath_eq_walk he).symm

/-- The node that a walk along the names of inode `k` ends at. -/
structure IsNode (d : Disk) (n : VfsNode) (k : ℕ) : Prop where
  idx : n.inodeIdx.toNat = k
  flags : n.flags = if (inodeAt d k).isDir then VFS_DIRECTORY else VFS_FILE

theorem IsNode.isDirectory {d : Disk} {k : ℕ} (h : IsNode d n k)
    (hd : (inodeAt d k).isDir = true) : n.isDirectory = true := by
  rw [VfsNode.isDirectory, h.flags, if_pos hd]
  decide

/-- `vfs_lookup` goes along an entry. -/
theorem Edge.lookup (h : FsInv io.disk) {n : VfsNode} (hdir : n.isDirectory = true) {s : CStr}
    {k : ℕ} (he : Edge io.disk n.inodeIdx.toNat s k) :
    ∃ m, vfsLookup io n s = some m ∧ IsNode io.disk m k := by
  have hne := he.ne_dot h.tree
  obtain ⟨j, hc, hs⟩ := he
  have hlook := vfsLookup_of_slot h hdir hc.dir hc.lt hc.present hs hne
  rw [hc.idx] at hlook
  exact ⟨_, hlook, hc.idx, rfl⟩

/-- The names on the way to a node lead there. -/
theorem PathTo.walk (h : FsInv io.disk) {names : List CStr} {k : ℕ} (hp : PathTo io.disk names k)
    {vfsRoot : VfsNode} (hr : IsNode io.disk vfsRoot 0) :
    ∃ m, walk io vfsRoot (names.map CStr.bytes) = some m ∧ IsNode io.disk m k := by
  induction hp with
  | nil => exact ⟨vfsRoot, rfl, hr⟩
  | @snoc front i s k _ he ih =>
      obtain ⟨n, hw, hn⟩ := ih
      have hdir := hn.isDirectory he.isDirectory.dir
      rw [← hn.idx] at he
      obtain ⟨m, hlook, hm⟩ := he.lookup h hdir
      refine ⟨m, ?_, hm⟩
      rw [List.map_append, walk_append, hw]
      simp only [List.map_cons, List.map_nil, Option.bind_some, walk_cons, resolveStep_bytes, hlook]
      rfl

/-- **A path made of the names on the way to a node is resolved to it.** -/
theorem PathTo.resolve (h : FsInv io.disk) {names : List CStr} {k : ℕ}
    (hp : PathTo io.disk names k) {vfsRoot : VfsNode} (hr : IsNode io.disk vfsRoot 0)
    (currentDir : VfsNode) {path : CStr}
    (habs : path.bytes.head? = some 47) (ht : tokens 47 path.bytes = names.map CStr.bytes) :
    ∃ m, vfsResolvePath io vfsRoot currentDir path = some (some m) ∧ IsNode io.disk m k := by
  obtain ⟨m, hw, hm⟩ := hp.walk h hr
  refine ⟨m, ?_, hm⟩
  rw [vfsResolvePath_of_short, startOf, if_pos habs, ht, hw]
  intro t hmem
  rw [ht] at hmem
  obtain ⟨s, hsn, rfl⟩ := List.mem_map.1 hmem
  have := (hp.strlen s hsn).1
  simp only [CStr.strlen] at this
  simp only [TOKEN_SIZE]
  omega

theorem head_pathText (names : List CStr) : (pathText names).bytes.head? = some 47 := by
  cases names with
  | nil => rfl
  | cons s names => rfl

theorem tokens_pathText {d : Disk} {names : List CStr} {k : ℕ} (hp : PathTo d names k)
    (hs : ∀ s ∈ names, SlashFree s) :
    tokens 47 (pathText names).bytes = names.map CStr.bytes := by
  by_cases hn : names = []
  · subst hn
    rfl
  · rw [bytes_pathText hn, pathBytes, tokens_join]
    intro t ht
    obtain ⟨s, hsn, rfl⟩ := List.mem_map.1 ht
    refine ⟨hs s hsn, fun he => (hp.strlen s hsn).2 ?_⟩
    rw [CStr.strlen, he]
    rfl

end NosmeriOs.Vfs
