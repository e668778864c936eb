import NosmeriOs.VfsRoundTrip

/-! # The buffer of `vfs_get_path` (`fs/vfs.cpp`)

`vfs_get_path` with every index of `out_buf` that it writes to, also in a call that fails.

* `OutBuf`: the buffer and, as history, the indices written to.
* `vfsGetPathOut`: the call; `vfsGetPathOut_eq` connects it to `vfsGetPath`.
* `vfsGetPathOut_root`, `vfsGetPathOut_below`: what a call writes, and whether it succeeds.
* `run_get_path_iff`: the sizes for which a call does what its caller expects. -/

namespace NosmeriOs.Vfs

open Bytes SimpleFs Paths

structure OutBuf where
  bytes : ℤ → UInt8
  written : List ℤ

namespace OutBuf

def store (b : OutBuf) (i : ℤ) (v : UInt8) : OutBuf :=
  ⟨Function.update b.bytes i v, i :: b.written⟩

/-- `memcpy` from outside the buffer. -/
def copyIn (b : OutBuf) (dst : ℤ) (src : ℕ → UInt8) (count : ℕ) : OutBuf :=
  (List.range count).foldl (fun b (i : ℕ) => b.store (dst + i) (src i)) b

/-- `memcpy` from one place of the buffer to another, byte after byte. -/
def copyWithin (b : OutBuf) (dst src : ℤ) (count : ℕ) : OutBuf :=
  (List.range count).foldl (fun b (i : ℕ) => b.store (dst + i) (b.bytes (src + i))) b

/-- All indices written to are from 0 up to `size`. -/
def Within (b : OutBuf) (size : ℤ) : Prop := ∀ i ∈ b.written, 0 ≤ i ∧ i < size

end OutBuf

def getPathLoopOut (io : Io) (cur : VfsNode) (b : OutBuf) (idx : ℤ) : OutBuf × Option ℤ :=
  if cur.inodeIdx = 0 then (b, some idx)
  else match vfsLookup io cur dotdot with
  | none => (b, none)
  | some parent =>
      let name := (findIn io parent cur).name
      if idx < name.strlen then (b, none)
      else
        let b := b.copyIn (idx - name.strlen + 1) name.byteAt name.strlen
        let b := b.store (idx - name.strlen) 47
        if _h : idx - name.strlen - 1 < 0 then (b, none)
        else getPathLoopOut io parent b (idx - name.strlen - 1)
termination_by idx.toNat
decreasing_by omega

/-- The returned value of `vfs_get_path`, and the buffer when it returns. -/
def vfsGetPathOut (io : Io) (node : VfsNode) (bufSize : UInt32) (buf : ℤ → UInt8) : ℤ × OutBuf :=
  let b : OutBuf := ⟨buf, []⟩
  if bufSize = 0 then (-1, b)
  else if node.inodeIdx = 0 then (0, b.copyIn 0 slash.byteAt 2)
  else
    let idx := cInt (bufSize - 1)
    match getPathLoopOut io node (b.store idx 0) (idx - 1) with
    | (b, none) => (-1, b)
    | (b, some idx) => (0, b.copyWithin 0 (idx + 1) (bufSize.toNat - idx - 1).toNat)

/-! ### Copies -/

namespace OutBuf

variable {b : OutBuf} {size : ℤ}

theorem bytes_copyIn (b : OutBuf) (dst : ℤ) (src : ℕ → UInt8) (count : ℕ) :
    (b.copyIn dst src count).bytes = Vfs.copyIn b.bytes dst src count := by
  unfold copyIn Vfs.copyIn
  induction count with
  | zero => rfl
  | succ n ih =>
      simp only [List.range_succ, List.foldl_append, List.foldl_cons, List.foldl_nil]
      rw [← ih]
      rfl

theorem bytes_copyWithin (b : OutBuf) (dst src : ℤ) (count : ℕ) :
    (b.copyWithin dst src count).bytes = Vfs.copyWithin b.bytes dst src count := by
  unfold copyWithin Vfs.copyWithin
  induction count with
  | zero => rfl
  | succ n ih =>
      simp only [List.range_succ, List.foldl_append, List.foldl_cons, List.foldl_nil]
      rw [← ih]
      rfl

theorem within_new (buf : ℤ → UInt8) (size : ℤ) : Within ⟨buf, []⟩ size := by simp [Within]

theorem Within.store (h : b.Within size) {i : ℤ} (h0 : 0 ≤ i) (hi : i < size) (v : UInt8) :
    (b.store i v).Within size := by
  intro k hk
  rcases List.mem_cons.1 hk with rfl | hk
  · exact ⟨h0, hi⟩
  · exact h k hk

theorem Within.foldl (h : b.Within size) {count : ℕ} {dst : ℤ} (h0 : 0 ≤ dst)
    (hend : dst + count ≤ size) (v : OutBuf → ℕ → UInt8) :
    ((List.range count).foldl (fun b (i : ℕ) => b.store (dst + i) (v b i)) b).Within size := by
  induction count with
  | zero => exact h
  | succ n ih =>
      push_cast at hend
      rw [List.range_succ, List.foldl_append]
      exact (ih (by omega)).store (by omega) (by omega) _

theorem Within.copyIn (h : b.Within size) {dst : ℤ} {count : ℕ} (h0 : 0 ≤ dst)
    (hend : dst + count ≤ size) (src : ℕ → UInt8) : (b.copyIn dst src count).Within size :=
  h.foldl h0 hend fun _ i => src i

theorem Within.copyWithin (h : b.Within size) {dst : ℤ} {count : ℕ} (h0 : 0 ≤ dst)
    (hend : dst + count ≤ size) (src : ℤ) : (b.copyWithin dst src count).Within size :=
  h.foldl h0 hend fun b i => b.bytes (src + i)

end OutBuf

/-! ### The two models -/

theorem getPathLoop_eq_out (io : Io) (cur : VfsNode) (b : OutBuf) (idx : ℤ) :
    getPathLoop io cur b.bytes idx =
      (getPathLoopOut io cur b idx).2.map fun i => ((getPathLoopOut io cur b idx).1.bytes, i) := by
  fun_induction getPathLoopOut io cur b idx with
  | case1 cur b idx h0 => rw [getPathLoop, if_pos h0]; rfl
  | case2 cur b idx h0 hnone => rw [getPathLoop, if_neg h0, hnone]; rfl
  | case3 cur b idx h0 parent hsome name hlt =>
      rw [getPathLoop, if_neg h0, hsome]
      exact if_pos hlt
  | case4 cur b idx h0 parent hsome name hlt b₁ b₂ hneg =>
      rw [getPathLoop, if_neg h0, hsome]
      dsimp only
      rw [if_neg hlt, dif_pos hneg]
      rfl
  | case5 cur b idx h0 parent hsome name hlt b₁ b₂ hneg ih =>
      rw [getPathLoop, if_neg h0, hsome]
      dsimp only
      rw [if_neg hlt, dif_neg hneg, ← ih]
      simp only [b₂, b₁, OutBuf.store, OutBuf.bytes_copyIn]
      rfl

theorem vfsGetPath_eq_out (io : Io) (node : VfsNode) (bufSize : UInt32) (buf : ℤ → UInt8) :
    vfsGetPath io node bufSize buf =
      if (vfsGetPathOut io node bufSize buf).1 = 0 then
        some (vfsGetPathOut io node bufSize buf).2.bytes
      else none := by
  unfold vfsGetPath vfsGetPathOut
  dsimp only
  by_cases hsize : bufSize = 0
  · simp [hsize]
  rw [if_neg hsize, if_neg hsize]
  by_cases h0 : node.inodeIdx = 0
  · simp [h0, OutBuf.bytes_copyIn]
  rw [if_neg h0, if_neg h0]
  have hloop := getPathLoop_eq_out io node
    (OutBuf.store ⟨buf, []⟩ (cInt (bufSize - 1)) 0) (cInt (bufSize - 1) - 1)
  change getPathLoop io node (Function.update buf (cInt (bufSize - 1)) 0) _ = _ at hloop
  rw [hloop]
  generalize getPathLoopOut io node _ _ = r
  obtain ⟨b, _ | idx⟩ := r
  · rfl
  · simp only [Option.map_some, if_true, OutBuf.bytes_copyWithin]

/-! ### The loop -/

/-- The loop stays in front of the terminator, and gets to the root when the path leaves one
byte free before it. -/
theorem getPathLoopOut_spec {io : Io} (h : FsInv io.disk) {names : List CStr} {k : ℕ}
    (hp : PathTo io.disk names k) : ∀ {cur : VfsNode} {b : OutBuf} {idx size : ℤ},
      cur.inodeIdx.toNat = k → cur.isDirectory = true → (inodeAt io.disk k).isDir = true →
      b.Within size → idx < size →
      (getPathLoopOut io cur b idx).1.Within size ∧
        ((getPathLoopOut io cur b idx).2 =
          if names = [] ∨ (pathBytes names).length ≤ idx then
            some (idx - (pathBytes names).length)
          else none) := by
  induction hp with
  | nil =>
      intro cur b idx size hk _ _ hb _
      have h0 : cur.inodeIdx = 0 := UInt32.toNat.inj hk
      rw [getPathLoopOut, if_pos h0]
      exact ⟨hb, by simp [pathBytes]⟩
  | @snoc front i s k ht he ih =>
      intro cur b idx size hk hdir hkd hb hidx
      obtain ⟨h0, hid, parent, hlook, hpdir, hpi, hname⟩ := findIn_up h ht he hk hdir hkd
      have hlen : ((pathBytes (front ++ [s])).length : ℤ) =
          (pathBytes front).length + s.strlen + 1 := by
        rw [pathBytes_append, List.length_append, List.length_cons]
        simp only [CStr.strlen]
        push_cast
        ring
      have hne : front ++ [s] ≠ [] := by simp
      simp only [hne, false_or, hlen]
      rw [getPathLoopOut, if_neg h0, hlook]
      dsimp only
      rw [hname]
      by_cases hlt : idx < s.strlen
      · rw [if_pos hlt, if_neg (by omega)]
        exact ⟨hb, rfl⟩
      rw [if_neg hlt]
      have hb' : ((b.copyIn (idx - s.strlen + 1) s.byteAt s.strlen).store
          (idx - s.strlen) 47).Within size :=
        (hb.copyIn (by omega) (by omega) _).store (by omega) (by omega) _
      by_cases hneg : idx - s.strlen - 1 < 0
      · rw [dif_pos hneg, if_neg (by omega)]
        exact ⟨hb', rfl⟩
      rw [dif_neg hneg]
      obtain ⟨hwithin, hres⟩ := ih hpi hpdir hid hb' (show idx - s.strlen - 1 < size by omega)
      refine ⟨hwithin, hres.trans ?_⟩
      by_cases hf : front = []
      · subst hf
        have hnil : (pathBytes []).length = 0 := rfl
        rw [if_pos (Or.inl rfl), if_pos (by omega), hnil]
        congr 1
        push_cast
        ring
      · simp only [hf, false_or]
        by_cases hfit : ((pathBytes front).length : ℤ) + s.strlen + 1 ≤ idx
        · rw [if_pos hfit, if_pos (by omega)]
          congr 1
          ring
        · rw [if_neg hfit, if_neg (by omega)]

/-! ### The call -/

/-- The path of the root is written without a look at the size. -/
theorem vfsGetPathOut_root {io : Io} {n : VfsNode} (h0 : n.inodeIdx = 0) {bufSize : UInt32}
    (hsize : bufSize ≠ 0) (buf : ℤ → UInt8) :
    (vfsGetPathOut io n bufSize buf).1 = 0 ∧
      ((vfsGetPathOut io n bufSize buf).2.Within bufSize.toNat ↔ 2 ≤ bufSize.toNat) := by
  have hcall : vfsGetPathOut io n bufSize buf =
      (0, OutBuf.copyIn ⟨buf, []⟩ 0 slash.byteAt 2) := by
    unfold vfsGetPathOut
    simp only [if_neg hsize, if_pos h0]
  rw [hcall]
  refine ⟨rfl, fun hin => ?_, fun h2 => ?_⟩
  · have hone := hin 1 (by simp [OutBuf.copyIn, OutBuf.store, List.range_succ])
    omega
  · apply (OutBuf.within_new buf _).copyIn (Int.le_refl 0)
    push_cast
    omega

section below

variable {io : Io} (h : FsInv io.disk) {n : VfsNode} {names : List CStr} (hnames : names ≠ [])
  (hp : PathTo io.disk names n.inodeIdx.toNat)
include h hnames hp

theorem inodeIdx_ne_zero : n.inodeIdx ≠ 0 := by
  intro h0
  rw [h0] at hp
  exact hnames (hp.unique (forest_edge h.tree) .nil)

variable (hdir : n.isDirectory = true) (hd : IsDirectory io.disk n.inodeIdx.toNat)
  {bufSize : UInt32} (hsize : bufSize ≠ 0)
include hdir hd hsize

/-- Below the root, sizes that are an `int`: the call stays inside, and wants one byte more than
the path and its terminator. -/
theorem vfsGetPathOut_below (hint : bufSize.toNat ≤ 2 ^ 31) (buf : ℤ → UInt8) :
    (vfsGetPathOut io n bufSize buf).2.Within bufSize.toNat ∧
      (vfsGetPathOut io n bufSize buf).1 =
        if (pathText names).strlen + 2 ≤ bufSize.toNat then 0 else -1 := by
  have h0 := inodeIdx_ne_zero h hnames hp
  have hpos : bufSize.toNat ≠ 0 := fun e => hsize (UInt32.toNat.inj e)
  have hidx : cInt (bufSize - 1) = (bufSize.toNat : ℤ) - 1 := by
    have hle : (1 : UInt32) ≤ bufSize := UInt32.le_iff_toNat_le.2 (Nat.one_le_iff_ne_zero.2 hpos)
    have hsub : (bufSize - 1).toNat = bufSize.toNat - 1 := UInt32.toNat_sub_of_le _ _ hle
    obtain ⟨hc, -⟩ | ⟨-, hbig⟩ := cInt_cases (bufSize - 1)
    · omega
    · omega
  have hb : (OutBuf.store ⟨buf, []⟩ (cInt (bufSize - 1)) 0).Within bufSize.toNat :=
    (OutBuf.within_new buf _).store (by omega) (by omega) 0
  have hfirst : cInt (bufSize - 1) - 1 < bufSize.toNat := by omega
  obtain ⟨hwithin, hres⟩ := getPathLoopOut_spec h hp rfl hdir hd.dir hb hfirst
  have hlen : ((pathBytes names).length : ℤ) = (pathText names).strlen := by
    rw [CStr.strlen, bytes_pathText hnames]
  simp only [hnames, false_or, hlen] at hres
  unfold vfsGetPathOut
  simp only [if_neg hsize, if_neg h0]
  generalize getPathLoopOut io n _ _ = r at hwithin hres
  obtain ⟨b, idx⟩ := r
  dsimp only at hwithin hres
  by_cases hfit : (pathText names).strlen + 2 ≤ bufSize.toNat
  · rw [if_pos (by omega)] at hres
    subst hres
    rw [if_pos hfit]
    refine ⟨hwithin.copyWithin (by omega) ?_ _, rfl⟩
    omega
  · rw [if_neg (by omega)] at hres
    subst hres
    rw [if_neg hfit]
    exact ⟨hwithin, rfl⟩

/-- Larger sizes give a negative index, and the terminator is written before the buffer. -/
theorem vfsGetPathOut_large (hbig : 2 ^ 31 < bufSize.toNat) (buf : ℤ → UInt8) :
    ¬ (vfsGetPathOut io n bufSize buf).2.Within bufSize.toNat := by
  have h0 := inodeIdx_ne_zero h hnames hp
  have hneg : cInt (bufSize - 1) < 0 := by
    have hle : (1 : UInt32) ≤ bufSize := UInt32.le_iff_toNat_le.2 (by
      change 1 ≤ bufSize.toNat
      omega)
    have hsub : (bufSize - 1).toNat = bufSize.toNat - 1 := UInt32.toNat_sub_of_le _ _ hle
    obtain ⟨-, hsmall⟩ | ⟨hc, -⟩ := cInt_cases (bufSize - 1)
    · omega
    · exact hc
  have hout : (vfsGetPathOut io n bufSize buf).2 =
      OutBuf.store ⟨buf, []⟩ (cInt (bufSize - 1)) 0 := by
    generalize hk : n.inodeIdx.toNat = k at hd hp
    cases hp with
    | nil => exact absurd rfl hnames
    | snoc ht he =>
        obtain ⟨-, -, parent, hlook, -, -, hname⟩ := findIn_up h ht he hk hdir hd.dir
        unfold vfsGetPathOut
        simp only [if_neg hsize, if_neg h0]
        rw [getPathLoopOut, if_neg h0, hlook]
        dsimp only
        rw [if_pos (by omega)]
  intro hin
  rw [hout] at hin
  have := hin _ List.mem_cons_self
  omega

end below

/-! ### What the caller expects -/

/-- `P` is the absolute path of inode `k`. -/
def IsPathOf (d : Disk) (k : ℕ) (P : CStr) : Prop := ∃ names, PathTo d names k ∧ P = pathText names

/-- Only the buffer is written to, and the call succeeds with the path in it exactly when the
path and its terminator fit. -/
structure GetPathRight (io : Io) (n : VfsNode) (bufSize : UInt32) (buf : ℤ → UInt8) (P : CStr) :
    Prop where
  inside : (vfsGetPathOut io n bufSize buf).2.Within bufSize.toNat
  result : if P.strlen + 1 ≤ bufSize.toNat then
      (vfsGetPathOut io n bufSize buf).1 = 0 ∧
        CStr.Holds (fun k : ℕ => (vfsGetPathOut io n bufSize buf).2.bytes k) P
    else (vfsGetPathOut io n bufSize buf).1 = -1

/-- The sizes for which the call does that: at the root all but 1, below it all that are not
beyond an `int` and not exactly that of the path with its terminator. -/
def SizeOk (n : VfsNode) (bufSize : UInt32) (P : CStr) : Prop :=
  if n.inodeIdx = 0 then 2 ≤ bufSize.toNat
  else bufSize.toNat ≤ 2 ^ 31 ∧ bufSize.toNat ≠ P.strlen + 1

theorem getPathRight_iff {io : Io} (h : FsInv io.disk) {n : VfsNode} (hdir : n.isDirectory = true)
    (hd : IsDirectory io.disk n.inodeIdx.toNat) {names : List CStr}
    (hp : PathTo io.disk names n.inodeIdx.toNat) {bufSize : UInt32} (hsize : bufSize ≠ 0)
    (buf : ℤ → UInt8) :
    GetPathRight io n bufSize buf (pathText names) ↔ SizeOk n bufSize (pathText names) := by
  have hholds : (vfsGetPathOut io n bufSize buf).1 = 0 →
      CStr.Holds (fun k : ℕ => (vfsGetPathOut io n bufSize buf).2.bytes k) (pathText names) := by
    intro hret
    have hout := vfsGetPath_eq_out io n bufSize buf
    rw [if_pos hret] at hout
    exact (vfsGetPath_holds h hdir hd hp hout).1
  unfold SizeOk
  by_cases h0 : n.inodeIdx = 0
  · have hnil : names = [] := by
      rw [h0] at hp
      exact hp.unique (forest_edge h.tree) .nil
    have hone : (pathText names).strlen = 1 := by
      subst hnil
      rfl
    obtain ⟨hret, hin⟩ := @vfsGetPathOut_root io n h0 bufSize hsize buf
    rw [if_pos h0]
    refine ⟨fun hr => hin.1 hr.inside, fun h2 => ⟨hin.2 h2, ?_⟩⟩
    rw [hone, if_pos h2]
    exact ⟨hret, hholds hret⟩
  · have hnames : names ≠ [] := by
      rintro rfl
      exact h0 (UInt32.toNat.inj hp.eq_root)
    rw [if_neg h0]
    by_cases hint : bufSize.toNat ≤ 2 ^ 31
    · obtain ⟨hin, hret⟩ := vfsGetPathOut_below h hnames hp hdir hd hsize hint buf
      constructor
      · refine fun hr => ⟨hint, fun hexact => ?_⟩
        have hres := hr.result
        rw [hexact, if_pos le_rfl, hret, if_neg (by omega)] at hres
        exact absurd hres.1 (by decide)
      · refine fun hok => ⟨hin, ?_⟩
        split_ifs with hfit
        · have hzero := hret.trans (if_pos (by omega))
          exact ⟨hzero, hholds hzero⟩
        · exact hret.trans (if_neg (by omega))
    · constructor
      · exact fun hr => absurd hr.inside
          (vfsGetPathOut_large h hnames hp hdir hd hsize (by omega) buf)
      · exact fun hok => absurd hok.1 hint

/-- **The sizes for which `vfs_get_path` respects its buffer and succeeds when the path fits.** -/
theorem run_get_path_iff (d : Disk) (hd : needsFormat d = true) (es : List VfsEvent) (n : VfsNode)
    (hn : n ∈ ((VfsState.init d).run es).nodes) (hdir : n.isDirectory = true) :
    (∃ P, IsPathOf ((VfsState.init d).run es).io.disk n.inodeIdx.toNat P) ∧
      ∀ P, IsPathOf ((VfsState.init d).run es).io.disk n.inodeIdx.toNat P →
        ∀ bufSize : UInt32, bufSize ≠ 0 → ∀ buf,
          (GetPathRight ((VfsState.init d).run es).io n bufSize buf P ↔ SizeOk n bufSize P) := by
  have hok := (VfsState.Ok.init hd).run es
  have hrooted := (VfsState.Ok.init hd).run_rooted (VfsState.rooted_init hd) es
  constructor
  · obtain ⟨names, hp, -⟩ := hrooted n hn
    exact ⟨_, names, hp, rfl⟩
  · rintro _ ⟨names, hp, rfl⟩ bufSize hsize buf
    exact getPathRight_iff hok.inv hdir ((hok.nodes n hn).dir hdir) hp hsize buf

/-- The path `/a` and a buffer of 16 bytes. -/
theorem run_get_path_below : needsFormat blankDisk = true ∧
    ∃ n ∈ ((VfsState.init blankDisk).run firstMkdir).nodes, n.isDirectory = true ∧
      n.inodeIdx ≠ 0 ∧
      IsPathOf ((VfsState.init blankDisk).run firstMkdir).io.disk n.inodeIdx.toNat
        (pathText [fileName 0]) ∧
      (GetPathRight ((VfsState.init blankDisk).run firstMkdir).io n 16 (fun _ => 0)
          (pathText [fileName 0]) ↔
        SizeOk n 16 (pathText [fileName 0])) := by
  have hd : needsFormat blankDisk = true := by decide
  have hok := (VfsState.Ok.init hd).run firstMkdir
  obtain ⟨n, hn, hdir, hedge, -⟩ := firstMkdir_node
  have hpath : PathTo ((VfsState.init blankDisk).run firstMkdir).io.disk [fileName 0]
      n.inodeIdx.toNat := Trail.snoc .nil hedge
  have hP : IsPathOf ((VfsState.init blankDisk).run firstMkdir).io.disk n.inodeIdx.toNat
      (pathText [fileName 0]) := ⟨_, hpath, rfl⟩
  have hright := (run_get_path_iff blankDisk hd firstMkdir n hn hdir).2 _ hP 16 (by decide)
    fun _ => 0
  exact ⟨hd, n, hn, hdir, inodeIdx_ne_zero hok.inv (List.cons_ne_nil _ _) hpath, hP, hright⟩

/-- The path of the root with a buffer of one byte: two bytes are written. -/
theorem root_path_overflows : needsFormat blankDisk = true ∧
    ∃ n ∈ ((VfsState.init blankDisk).run []).nodes, n.isDirectory = true ∧
      ∃ P, IsPathOf ((VfsState.init blankDisk).run []).io.disk n.inodeIdx.toNat P ∧
        ¬ GetPathRight ((VfsState.init blankDisk).run []).io n 1 (fun _ => 0) P := by
  have hd : needsFormat blankDisk = true := by decide
  have hroot := VfsState.Ok.isNode_root hd []
  have hok := (VfsState.Ok.init hd).run []
  have hdir := hroot.isDirectory hok.inv.tree.root.dir
  have h0 : (vfsInit ⟨blankDisk, []⟩).2.2.inodeIdx = 0 := UInt32.toNat.inj hroot.idx
  refine ⟨hd, (vfsInit ⟨blankDisk, []⟩).2.2, List.mem_singleton.2 rfl, hdir, pathText [],
    ⟨[], ?_, rfl⟩, fun hr => ?_⟩
  · rw [hroot.idx]
    exact .nil
  · have h2 := (vfsGetPathOut_root h0 (by decide) _).2.1 hr.inside
    exact absurd h2 (by decide)

end NosmeriOs.Vfs
