import NosmeriOs.VfsSession

/-! # The cursor of an open file

`File.offset` is counted up by `vfs_file_read` and `vfs_file_write` and read by nobody: every
access starts at byte 0 of the file, and a write answers 0 and not the bytes written.

* `sysRead`: `SYS_READ` with the read functions of `fs/file.cpp`.
* `run_sequential_reads_iff`: reads one after another deliver the file exactly when each read
  after the first bytes finds the beginning of the file again (`Repeats`).
* `run_sequential_writes_iff`: writes one after another accumulate exactly when all of them
  are empty. -/

namespace NosmeriOs.Vfs

open Bytes SimpleFs Tasks

/-! ### `SYS_READ` -/

/-- The operands of a read: the bytes asked for, and the characters that wait at the keyboard. -/
structure ReadCall where
  count : UInt32
  keys : List UInt8

/-- `stdin_read`: it stops at a character 0. -/
def stdinRead (r : ReadCall) : ℤ × List UInt8 :=
  let got := (r.keys.take r.count.toNat).takeWhile (· ≠ 0)
  (got.length, got)

namespace Session

/-- `vfs_file_read`. -/
def vfsFileRead (s : Session) (task fd : ℕ) (file : File) (count : UInt32) :
    Option ((ℤ × List UInt8) × Session) :=
  (vfsRead s.fs.io file.node count).map fun (bytes, data) =>
    ((bytes, data), s.setFd task fd
      (some { file with offset := if 0 < bytes then file.offset + cUInt bytes else file.offset }))

/-- `SYS_READ`: the answer and the bytes delivered. -/
def sysRead (s : Session) (task : ℕ) (fd : ℤ) (r : ReadCall) :
    Option ((ℤ × List UInt8) × Session) :=
  if fd < 0 ∨ (MAX_FD : ℤ) ≤ fd then some ((-1, []), s)
  else match s.fdTable task fd.toNat with
    | none => some ((-1, []), s)
    | some file => match file.ops with
      | .stdinOps => some (stdinRead r, s)
      | .stdoutOps => some ((-1, []), s)
      | .stderrOps => some ((-1, []), s)
      | .vfsFileOps => s.vfsFileRead task fd.toNat file r.count

/-- Reads one after another. -/
def sysReads (s : Session) (task : ℕ) (fd : ℤ) :
    List ReadCall → Option (List (ℤ × List UInt8) × Session)
  | [] => some ([], s)
  | r :: rs => do
      let (answer, s) ← s.sysRead task fd r
      let (answers, s) ← s.sysReads task fd rs
      some (answer :: answers, s)

/-- Writes of whole buffers one after another, with what each returned. -/
def sysWrites (s : Session) (task : ℕ) (fd : ℤ) : List (List UInt8) → List ℤ × Session
  | [] => ([], s)
  | b :: bs =>
      let (ret, s) := s.sysWrite task fd (fun i => b.getD i 0) (UInt32.ofNat b.length)
      let (rets, s) := s.sysWrites task fd bs
      (ret :: rets, s)

end Session

/-! ### What a read and a write do through a descriptor -/

/-- The answer of a read that starts at byte 0 whatever the cursor. -/
def fromStart (c : List UInt8) (r : ReadCall) : ℤ × List UInt8 :=
  (((min r.count.toNat c.length : ℕ) : ℤ), c.take r.count.toNat)

/-- A write changes no field of its node but the size. -/
theorem vfsWrite_fields (io : Io) (sb : Superblock) (n : VfsNode) (buf : ℕ → UInt8)
    (size : UInt32) : (vfsWrite io sb n buf size).2.2.parentIdx = n.parentIdx ∧
      (vfsWrite io sb n buf size).2.2.name = n.name ∧
      (vfsWrite io sb n buf size).2.2.flags = n.flags := by
  unfold vfsWrite
  split_ifs
  · exact ⟨rfl, rfl, rfl⟩
  · dsimp only
    split_ifs
    · exact ⟨rfl, rfl, rfl⟩
    · exact ⟨rfl, rfl, rfl⟩

namespace Session

/-- Descriptor `fd` of the task is open on the file behind the node `N`, whatever its cursor. -/
def OpenOn (s : Session) (task fd : ℕ) (N : VfsNode) : Prop :=
  fd < MAX_FD ∧ ∃ f, s.fdTable task fd = some f ∧ f.ops = .vfsFileOps ∧
    f.node.parentIdx = N.parentIdx ∧ f.node.name = N.name ∧ f.node.flags = N.flags

@[simp] theorem fdTable_setFd (s : Session) (task fd : ℕ) (f : Option File) :
    (s.setFd task fd f).fdTable task fd = f := by
  simp [setFd]

@[simp] theorem fs_setFd (s : Session) (task fd : ℕ) (f : Option File) :
    (s.setFd task fd f).fs = s.fs := rfl

/-- A descriptor that `SYS_OPEN` returns holds a fresh `File` for the node of the path. -/
theorem sysOpen_fd {s s' : Session} {task fd : ℕ} {path : CStr} {allocated : Bool} {N : VfsNode}
    (hN : s.resolve task path = some N) (ho : s.sysOpen task path allocated = ((fd : ℤ), s')) :
    fd < MAX_FD ∧ s' = (s.note N).setFd task fd (some (createVfsFile N)) := by
  unfold sysOpen at ho
  simp only [hN] at ho
  cases allocated with
  | false =>
      have h := congrArg Prod.fst ho
      simp at h
  | true =>
      rw [if_neg (by simp)] at ho
      cases hi : (List.range MAX_FD).find? fun i => (s.fdTable task i).isNone with
      | none =>
          rw [hi] at ho
          have h := congrArg Prod.fst ho
          simp at h
      | some i =>
          rw [hi] at ho
          simp only [Prod.mk.injEq, Nat.cast_inj] at ho
          obtain ⟨rfl, rfl⟩ := ho
          exact ⟨List.mem_range.1 (List.mem_of_find?_eq_some hi), rfl⟩

/-- A read through a descriptor answers from byte 0 of the file; only the cursor of the
descriptor changes. -/
theorem sysRead_openOn {s : Session} (hs : s.Ok) {task fd : ℕ} {N : VfsNode}
    (ho : s.OpenOn task fd N) (hN : NodeOk s.fs.io.disk N) (hf : N.isDirectory = false)
    {c : List UInt8} (hc : FileHolds s.fs.io.disk N.inodeIdx.toNat c) (r : ReadCall) :
    ∃ s', s.sysRead task fd r = some (fromStart c r, s') ∧
      s'.Ok ∧ s'.fs = s.fs ∧ s'.OpenOn task fd N := by
  obtain ⟨hfd, f, hfdt, hops, hp, hn, hflags⟩ := ho
  obtain ⟨hl, hfile⟩ := hN.handle hs.fs.inv hf
  have hdir : f.node.isDirectory = false := by
    rw [VfsNode.isDirectory, hflags]
    exact hf
  have hread : vfsRead s.fs.io f.node r.count =
      some (((min r.count.toNat c.length : ℕ) : ℤ), c.take r.count.toNat) := by
    rw [vfsRead, if_neg (by simp [hdir]), hp, hn]
    exact simplefsRead_file hl hfile hc r.count
  have hnot : ¬ ((fd : ℤ) < 0 ∨ (MAX_FD : ℤ) ≤ fd) := by omega
  rw [sysRead, if_neg hnot, Int.toNat_natCast, hfdt]
  simp only [hops, vfsFileRead, hread, Option.map_some]
  refine ⟨_, rfl, hs.setFd fun g hg _ => ?_, rfl, hfd, _, fdTable_setFd _ _ _ _, rfl, hp, hn,
    hflags⟩
  cases hg
  exact hs.fd task fd f hfdt hops

/-- All reads together. -/
theorem sysReads_openOn {task fd : ℕ} {N : VfsNode} (hf : N.isDirectory = false) {c : List UInt8}
    (rs : List ReadCall) : ∀ {s : Session}, s.Ok → s.OpenOn task fd N → NodeOk s.fs.io.disk N →
      FileHolds s.fs.io.disk N.inodeIdx.toNat c →
      ∃ s', s.sysReads task fd rs = some (rs.map (fromStart c), s') := by
  induction rs with
  | nil => exact fun _ _ _ _ => ⟨_, rfl⟩
  | cons r rs ih =>
      intro s hs ho hN hc
      obtain ⟨s₁, hr, hs₁, hfs, ho₁⟩ := sysRead_openOn hs ho hN hf hc r
      obtain ⟨s₂, hrs⟩ := ih hs₁ ho₁ (by rw [hfs]; exact hN) (by rw [hfs]; exact hc)
      exact ⟨s₂, by simp [sysReads, hr, hrs]⟩

/-- A write through a descriptor answers 0 and leaves the cursor where it was. -/
theorem sysWrite_openOn {s : Session} (hs : s.Ok) {task fd : ℕ} {N : VfsNode}
    (ho : s.OpenOn task fd N) (hN : NodeOk s.fs.io.disk N) (hf : N.isDirectory = false)
    {b : List UInt8} (hb : b.length ≤ 30 * 512) :
    ∃ s', s.sysWrite task fd (fun i => b.getD i 0) (UInt32.ofNat b.length) = (0, s') ∧
      s'.Ok ∧ s'.OpenOn task fd N ∧ NodeOk s'.fs.io.disk N ∧
      (s'.fdTable task fd).map File.offset = (s.fdTable task fd).map File.offset := by
  have hkept := hs.sysWrite task fd (fun i => b.getD i 0) (UInt32.ofNat b.length)
  obtain ⟨hfd, f, hfdt, hops, hp, hn, hflags⟩ := ho
  obtain ⟨hl, hfile⟩ := hN.handle hs.fs.inv hf
  have hdir : f.node.isDirectory = false := by
    rw [VfsNode.isDirectory, hflags]
    exact hf
  have hsb : s.fs.sb.dataBlockStart = 17 := by
    rw [hs.fs.sb]
    rfl
  have hlen : (UInt32.ofNat b.length).toNat ≤ 30 * 512 := by
    rw [UInt32.toNat_ofNat_of_lt' (by simp only [UInt32.size]; omega)]
    exact hb
  have hwrite : (simplefsWrite s.fs.io s.fs.sb f.node.parentIdx f.node.name
      (fun i => b.getD i 0) (UInt32.ofNat b.length)).1 = 0 := by
    rw [hp, hn]
    exact (simplefsWrite_file hs.fs.inv hsb hl hfile _ hlen).1
  have hret := (vfsWrite_of_file hdir _ _ hwrite).1
  have hkeep := vfsWrite_fields s.fs.io s.fs.sb f.node (fun i => b.getD i 0)
    (UInt32.ofNat b.length)
  have hnot : ¬ ((fd : ℤ) < 0 ∨ (MAX_FD : ℤ) ≤ fd) := by omega
  have heq : s.sysWrite task fd (fun i => b.getD i 0) (UInt32.ofNat b.length) =
      s.vfsFileWrite task fd f (fun i => b.getD i 0) (UInt32.ofNat b.length) := by
    rw [sysWrite, if_neg hnot, Int.toNat_natCast, hfdt]
    simp only [hops]
  rw [heq] at hkept ⊢
  unfold vfsFileWrite at hkept ⊢
  simp only [hret, lt_self_iff_false, if_false] at hkept ⊢
  exact ⟨_, rfl, hkept.1, ⟨hfd, _, fdTable_setFd _ _ _ _, hops, hkeep.1.trans hp,
    hkeep.2.1.trans hn, hkeep.2.2.trans hflags⟩, hN.grows hkept.2, by simp [hfdt]⟩

/-- All writes together. -/
theorem sysWrites_openOn {task fd : ℕ} {N : VfsNode} (hf : N.isDirectory = false)
    (bs : List (List UInt8)) (hbs : ∀ b ∈ bs, b.length ≤ 30 * 512) : ∀ {s : Session}, s.Ok →
      s.OpenOn task fd N → NodeOk s.fs.io.disk N →
      (s.sysWrites task fd bs).1 = bs.map (fun _ => 0) ∧
      ((s.sysWrites task fd bs).2.fdTable task fd).map File.offset =
        (s.fdTable task fd).map File.offset := by
  induction bs with
  | nil => exact fun _ _ _ => ⟨rfl, rfl⟩
  | cons b bs ih =>
      intro s hs ho hN
      obtain ⟨s₁, hw, hs₁, ho₁, hN₁, hoff⟩ := sysWrite_openOn hs ho hN hf (hbs b (by simp))
      obtain ⟨hrets, hoffs⟩ := ih (fun b' hb' => hbs b' (by simp [hb'])) hs₁ ho₁ hN₁
      simp only [sysWrites, hw, List.map_cons]
      exact ⟨by rw [hrets], hoffs.trans hoff⟩

end Session

/-! ### Reads one after another -/

/-- The answers are those of a cursor that moves over a file of content `c`. -/
structure ReadsAsFile (c : List UInt8) (rs : List ReadCall) (as : List (ℤ × List UInt8)) :
    Prop where
  length : as.length = rs.length
  returns : ∀ i < rs.length, ((as.map Prod.fst).getD i 0 : ℤ) =
    min ((rs.map fun r => (r.count.toNat : ℤ)).getD i 0)
      (c.length - ((as.map Prod.fst).take i).sum)
  bytes : (as.map Prod.snd).flatten = c.take (as.map Prod.fst).sum.toNat

/-- From position `pos` on, every read of at least one byte that does not start at 0 stays
within the file and meets the bytes the file begins with. -/
def Repeats (c : List UInt8) : ℕ → List ReadCall → Prop
  | _, [] => True
  | pos, r :: rs =>
      (r.count = 0 ∨ pos = 0 ∨ pos + r.count.toNat ≤ c.length ∧
        (c.drop pos).take r.count.toNat = c.take r.count.toNat) ∧
      Repeats c (pos + min r.count.toNat c.length) rs

theorem map_fst_fromStart (c : List UInt8) (rs : List ReadCall) :
    (rs.map (fromStart c)).map Prod.fst =
      rs.map fun r => ((min r.count.toNat c.length : ℕ) : ℤ) := by
  simp [fromStart]

/-- One read from byte 0 answers as a read at `pos` would. -/
theorem fromStart_at_iff {c : List UInt8} {pos : ℕ} (hpos : pos ≤ c.length) (n : UInt32) :
    ((((min n.toNat c.length : ℕ) : ℤ) = min (n.toNat : ℤ) (c.length - pos)) ∧
      c.take n.toNat = (c.drop pos).take (min n.toNat c.length)) ↔
    (n = 0 ∨ pos = 0 ∨ pos + n.toNat ≤ c.length ∧ (c.drop pos).take n.toNat = c.take n.toNat) := by
  have hn0 : n = 0 ↔ n.toNat = 0 := ⟨fun h => by rw [h]; rfl, fun h => UInt32.toNat_inj.1 h⟩
  rw [hn0]
  constructor
  · rintro ⟨hret, hbytes⟩
    by_cases h0 : n.toNat = 0
    · exact Or.inl h0
    · by_cases hp : pos = 0
      · exact Or.inr (Or.inl hp)
      · have hle : pos + n.toNat ≤ c.length := by omega
        rw [Nat.min_eq_left (by omega)] at hbytes
        exact Or.inr (Or.inr ⟨hle, hbytes.symm⟩)
  · rintro (h0 | h0 | ⟨hle, hbytes⟩)
    · rw [h0]
      exact ⟨by omega, by simp⟩
    · subst h0
      refine ⟨by omega, ?_⟩
      rw [List.drop_zero]
      rcases Nat.le_total n.toNat c.length with h | h
      · rw [Nat.min_eq_left h]
      · rw [Nat.min_eq_right h, List.take_length, List.take_of_length_le h]
    · refine ⟨by omega, ?_⟩
      rw [Nat.min_eq_left (by omega)]
      exact hbytes.symm

/-- Reads from byte 0 answer as reads from `pos` on would, exactly when the file repeats its
beginning at every position reached. -/
theorem fromStart_iff {c : List UInt8} (rs : List ReadCall) : ∀ pos ≤ c.length,
    ((∀ i < rs.length, ((rs.map fun r => ((min r.count.toNat c.length : ℕ) : ℤ)).getD i 0) =
        min ((rs.map fun r => (r.count.toNat : ℤ)).getD i 0)
          (c.length - (pos + ((rs.map fun r =>
            ((min r.count.toNat c.length : ℕ) : ℤ)).take i).sum))) ∧
      (rs.map fun r => c.take r.count.toNat).flatten =
        (c.drop pos).take (rs.map fun r => min r.count.toNat c.length).sum) ↔
    Repeats c pos rs := by
  induction rs with
  | nil => simp [Repeats]
  | cons r rs ih =>
      intro pos hpos
      rw [Repeats, List.length_cons, Nat.forall_lt_succ_left, ← fromStart_at_iff hpos]
      simp only [List.map_cons, List.getD_cons_zero, List.getD_cons_succ, List.take_zero,
        List.sum_nil, List.take_succ_cons, List.sum_cons, List.flatten_cons, add_zero]
      have hshift : ∀ x : ℤ, (c.length : ℤ) - (pos + (((min r.count.toNat c.length : ℕ) : ℤ) + x)) =
          c.length - (((pos + min r.count.toNat c.length : ℕ) : ℤ) + x) := fun x => by omega
      simp only [hshift]
      -- a first answer that fits leaves the cursor within the file
      by_cases hret : ((min r.count.toNat c.length : ℕ) : ℤ) =
          min (r.count.toNat : ℤ) (c.length - pos)
      · have hin : pos + min r.count.toNat c.length ≤ c.length := by omega
        have hsplit : (c.drop pos).take (min r.count.toNat c.length +
              (rs.map fun r => min r.count.toNat c.length).sum) =
            (c.drop pos).take (min r.count.toNat c.length) ++
              (c.drop (pos + min r.count.toNat c.length)).take
                (rs.map fun r => min r.count.toNat c.length).sum := by
          rw [List.take_add, List.drop_drop]
        have hlen : (c.take r.count.toNat).length =
            ((c.drop pos).take (min r.count.toNat c.length)).length := by
          rw [List.length_take, List.length_take, List.length_drop]
          omega
        have hsame : ∀ l m : List UInt8, c.take r.count.toNat ++ l =
            (c.drop pos).take (min r.count.toNat c.length) ++ m ↔
            c.take r.count.toNat = (c.drop pos).take (min r.count.toNat c.length) ∧ l = m :=
          fun l m => ⟨fun h => List.append_inj h hlen, fun h => by rw [h.1, h.2]⟩
        rw [← ih _ hin, hsplit, hsame]
        tauto
      · tauto

theorem readsAsFile_fromStart_iff (c : List UInt8) (rs : List ReadCall) :
    ReadsAsFile c rs (rs.map (fromStart c)) ↔ Repeats c 0 rs := by
  have hsum : ((rs.map (fromStart c)).map Prod.fst).sum =
      (((rs.map fun r => min r.count.toNat c.length).sum : ℕ) : ℤ) := by
    rw [map_fst_fromStart, Nat.cast_list_sum, List.map_map]
    rfl
  have hbytes : (rs.map (fromStart c)).map Prod.snd = rs.map fun r => c.take r.count.toNat := by
    simp [fromStart]
  rw [← fromStart_iff rs 0 (Nat.zero_le _)]
  constructor
  · intro h
    have hr := h.returns
    have hb := h.bytes
    rw [hbytes, hsum, Int.toNat_natCast] at hb
    rw [map_fst_fromStart] at hr
    refine ⟨fun i hi => ?_, by rw [List.drop_zero]; exact hb⟩
    rw [hr i hi, Nat.cast_zero, zero_add]
  · rintro ⟨hr, hb⟩
    refine ⟨by simp, fun i hi => ?_, ?_⟩
    · rw [map_fst_fromStart, hr i hi, Nat.cast_zero, zero_add]
    · rw [hbytes, hsum, Int.toNat_natCast, hb, List.drop_zero]

theorem Session.sysOpen_openOn {s s' : Session} (hs : s.Ok) {task fd : ℕ} {path : CStr}
    {allocated : Bool} {N : VfsNode} (hN : s.resolve task path = some N)
    (ho : s.sysOpen task path allocated = ((fd : ℤ), s')) :
    s'.Ok ∧ s'.fs.io = s.fs.io ∧ s'.OpenOn task fd N ∧ NodeOk s.fs.io.disk N ∧
      (s'.fdTable task fd).map File.offset = some 0 := by
  have hok := (hs.sysOpen task path allocated).1
  rw [ho] at hok
  obtain ⟨hfd, rfl⟩ := Session.sysOpen_fd hN ho
  refine ⟨hok, rfl, ⟨hfd, _, Session.fdTable_setFd _ _ _ _, rfl, rfl, rfl, rfl⟩, hs.resolve hN, ?_⟩
  rw [Session.fdTable_setFd]
  rfl

/-! ### One file on a fresh disk -/

/-- `/a`. -/
def firstPath : CStr := ⟨[47, 97], by decide⟩

theorem FirstFile.resolveStep {io : Io} (hinv : FsInv io.disk) (h : FirstFile io.disk)
    {dir : VfsNode} (hdir : dir.isDirectory = true) (h0 : dir.inodeIdx = 0) :
    resolveStep io dir [97] = some (nodeOf (fileName 0) 1 0 (inodeAt io.disk 1)) := by
  have hr0 : dir.inodeIdx.toNat = 0 := by
    rw [h0]
    rfl
  have htoken : CStr.ofMem 1 (([97] : List UInt8).getD · 0) = fileName 0 := by
    apply CStr.ext
    rfl
  have hlook := @vfsLookup_of_slot io hinv dir hdir
    (by rw [hr0]; exact hinv.tree.root) 2 (by omega) (fileName 0)
    (by rw [hr0]; exact h.present) (by rw [hr0]; exact h.name) (fileName_ne_dot 0).1
  rw [hr0, h.idx, h0] at hlook
  unfold Vfs.resolveStep
  exact (congrArg _ htoken).trans hlook

theorem FirstFile.resolvePath {io : Io} (hinv : FsInv io.disk) (h : FirstFile io.disk)
    {vfsRoot : VfsNode} (hdir : vfsRoot.isDirectory = true) (h0 : vfsRoot.inodeIdx = 0)
    (currentDir : VfsNode) : vfsResolvePath io vfsRoot currentDir firstPath =
      some (some (nodeOf (fileName 0) 1 0 (inodeAt io.disk 1))) := by
  have hpath : vfsResolvePath io vfsRoot currentDir firstPath =
      some (Vfs.resolveStep io vfsRoot [97]) := rfl
  rw [hpath, h.resolveStep hinv hdir h0]

theorem FirstFile.resolve {s : Session} (hs : s.Ok) (h : FirstFile s.fs.io.disk)
    (hdir : s.vfsRoot.isDirectory = true) (h0 : s.vfsRoot.inodeIdx = 0) (task : ℕ) :
    s.resolve task firstPath =
      some (nodeOf (fileName 0) 1 0 (inodeAt s.fs.io.disk 1)) := by
  rw [Session.resolve, h.resolvePath hs.fs.inv hdir h0, Option.getD_some]

/-- The session after `a` was created. -/
def oneFile : Session := (Session.init blankDisk).run [.call (.create 0 (fileName 0))]

/-- The session after `a` was created and the bytes 0 and 1 written to it. -/
def twoBytes : Session :=
  (Session.init blankDisk).run [.call (.create 0 (fileName 0)), .call (.write 1 UInt8.ofNat 2)]

theorem needsFormat_blankDisk : needsFormat blankDisk = true := by decide

theorem oneFile_ok : oneFile.Ok := ((Session.ok_init needsFormat_blankDisk).run _).1

theorem twoBytes_ok : twoBytes.Ok := ((Session.ok_init needsFormat_blankDisk).run _).1

theorem oneFile_fs : oneFile.fs = (VfsState.init blankDisk).call (.create 0 (fileName 0)) := by
  simp only [oneFile, Session.run, List.foldl_cons, List.foldl_nil, Session.step, Session.init]

theorem twoBytes_fs : twoBytes.fs = oneFile.fs.call (.write 1 UInt8.ofNat 2) := by
  simp only [oneFile, twoBytes, Session.run, List.foldl_cons, List.foldl_nil, Session.step]

theorem firstFile_oneFile : FirstFile oneFile.fs.io.disk := by
  rw [oneFile_fs]
  exact (first_file needsFormat_blankDisk).1

theorem resolve_oneFile : oneFile.resolve 0 firstPath =
    some (nodeOf (fileName 0) 1 0 (inodeAt oneFile.fs.io.disk 1)) :=
  firstFile_oneFile.resolve oneFile_ok rfl rfl 0

theorem isDirectory_firstNode {d : Disk} (h : FirstFile d) :
    (nodeOf (fileName 0) 1 0 (inodeAt d 1)).isDirectory = false :=
  (isDirectory_nodeOf _ _ _ _).trans h.file.file

theorem fileHolds_firstNode {d : Disk} {c : List UInt8} (h : FileHolds d 1 c) :
    FileHolds d (nodeOf (fileName 0) 1 0 (inodeAt d 1)).inodeIdx.toNat c := h

/-- A write leaves the root directory as it is, and the file with the bytes written. -/
theorem FirstFile.write {s : VfsState} (hs : s.Ok) (h : FirstFile s.io.disk)
    (hn : s.nodes[1]? = some (nodeOf (fileName 0) 1 0 (inodeAt s.io.disk 1))) (buf : ℕ → UInt8)
    {size : UInt32} (hsize : size.toNat ≤ 30 * 512) :
    FirstFile (s.call (.write 1 buf size)).io.disk ∧
      FileHolds (s.call (.write 1 buf size)).io.disk 1 (contentOf buf size) := by
  have hf := isDirectory_firstNode h
  obtain ⟨hl, hfile⟩ := (hs.node hn).handle hs.inv hf
  have hsb : s.sb.dataBlockStart = 17 := by
    rw [hs.sb]
    rfl
  obtain ⟨hret, ⟨hfile', hholds⟩, hothers⟩ :=
    simplefsWrite_file hs.inv hsb hl hfile buf hsize
  have hroot := hothers 0 (by omega) hs.inv.tree.root.used Nat.zero_ne_one
  have hslot := hroot.slot hs.inv.tree.root 2
  rw [call_write_io hn, (vfsWrite_of_file hf _ _ hret).2]
  refine ⟨⟨?_, ?_, ?_, hfile'⟩, hholds⟩
  · rw [hslot]
    exact h.present
  · rw [hslot]
    exact h.name
  · rw [hslot]
    exact h.idx

theorem twoBytes_spec : FirstFile twoBytes.fs.io.disk ∧ FileHolds twoBytes.fs.io.disk 1 [0, 1] := by
  have hn := (first_file needsFormat_blankDisk).2
  rw [← oneFile_fs] at hn
  rw [twoBytes_fs]
  exact FirstFile.write oneFile_ok.fs firstFile_oneFile hn UInt8.ofNat (by decide)

theorem resolve_twoBytes : twoBytes.resolve 0 firstPath =
    some (nodeOf (fileName 0) 1 0 (inodeAt twoBytes.fs.io.disk 1)) :=
  twoBytes_spec.1.resolve twoBytes_ok rfl rfl 0

/-- With the standard descriptors open, the next one is 3. -/
theorem sysOpen_first {s : Session} {N : VfsNode} (hN : s.resolve 0 firstPath = some N)
    (hfd : s.fdTable 0 = Session.stdTable) :
    ∃ s', s.sysOpen 0 firstPath true = (((3 : ℕ) : ℤ), s') := by
  have hfind : ((List.range MAX_FD).find? fun i => (Session.stdTable i).isNone) = some 3 := rfl
  unfold Session.sysOpen
  simp only [hN, hfd, hfind]
  exact ⟨_, rfl⟩

/-! ### Reads and writes one after another, in runs -/

/-- Reads through a fresh descriptor all start at byte 0. -/
theorem Session.sysReads_sysOpen {s s' : Session} (hs : s.Ok) {task fd : ℕ} {path : CStr}
    {allocated : Bool} {N : VfsNode} {c : List UInt8} (hN : s.resolve task path = some N)
    (hf : N.isDirectory = false) (hc : FileHolds s.fs.io.disk N.inodeIdx.toNat c)
    (ho : s.sysOpen task path allocated = ((fd : ℤ), s')) (rs : List ReadCall) :
    ∃ s'', s'.sysReads task fd rs = some (rs.map (fromStart c), s'') := by
  obtain ⟨hs', hio, hopen, hnode, -⟩ := Session.sysOpen_openOn hs hN ho
  rw [← hio] at hc hnode
  exact Session.sysReads_openOn hf rs hs' hopen hnode hc

/-- **Reads one after another.**  Through a fresh descriptor they deliver the file exactly when
every read that does not start at byte 0 meets the first bytes of the file again. -/
theorem run_sequential_reads_iff (d : Disk) (hd : needsFormat d = true) (ops : List SessionOp)
    (task : ℕ) (path : CStr) (allocated : Bool) (N : VfsNode) (c : List UInt8) (fd : ℕ)
    (s : Session) (hN : ((Session.init d).run ops).resolve task path = some N)
    (hf : N.isDirectory = false)
    (hc : FileHolds ((Session.init d).run ops).fs.io.disk N.inodeIdx.toNat c)
    (ho : ((Session.init d).run ops).sysOpen task path allocated = ((fd : ℤ), s))
    (rs : List ReadCall) :
    ∃ as s', s.sysReads task fd rs = some (as, s') ∧ (ReadsAsFile c rs as ↔ Repeats c 0 rs) := by
  have hok := ((Session.ok_init hd).run ops).1
  obtain ⟨s', hrs⟩ := Session.sysReads_sysOpen hok hN hf hc ho rs
  exact ⟨_, s', hrs, readsAsFile_fromStart_iff c rs⟩

theorem run_sequential_reads_iff_twoBytes : ∃ N s as s', needsFormat blankDisk = true ∧
    twoBytes.resolve 0 firstPath = some N ∧ N.isDirectory = false ∧
    FileHolds twoBytes.fs.io.disk N.inodeIdx.toNat [0, 1] ∧
    twoBytes.sysOpen 0 firstPath true = (((3 : ℕ) : ℤ), s) ∧
    s.sysReads 0 3 [⟨2, []⟩, ⟨0, []⟩] = some (as, s') ∧
    (ReadsAsFile [0, 1] [⟨2, []⟩, ⟨0, []⟩] as ↔ Repeats [0, 1] 0 [⟨2, []⟩, ⟨0, []⟩]) := by
  have hf := isDirectory_firstNode twoBytes_spec.1
  have hc := fileHolds_firstNode twoBytes_spec.2
  obtain ⟨s, ho⟩ := sysOpen_first resolve_twoBytes rfl
  have h := run_sequential_reads_iff blankDisk needsFormat_blankDisk
    [.call (.create 0 (fileName 0)), .call (.write 1 UInt8.ofNat 2)] 0 firstPath true
  rw [← twoBytes] at h
  obtain ⟨as, s', hrs, hiff⟩ := h _ [0, 1] 3 s resolve_twoBytes hf hc ho [⟨2, []⟩, ⟨0, []⟩]
  exact ⟨_, s, as, s', needsFormat_blankDisk, resolve_twoBytes, hf, hc, ho, hrs, hiff⟩

/-- Two reads of one byte each deliver the first byte twice. -/
theorem two_reads_repeat : ∃ N s as s', needsFormat blankDisk = true ∧
    twoBytes.resolve 0 firstPath = some N ∧ N.isDirectory = false ∧
    FileHolds twoBytes.fs.io.disk N.inodeIdx.toNat [0, 1] ∧
    twoBytes.sysOpen 0 firstPath true = (((3 : ℕ) : ℤ), s) ∧
    s.sysReads 0 3 [⟨1, []⟩, ⟨1, []⟩] = some (as, s') ∧
    ¬ ReadsAsFile [0, 1] [⟨1, []⟩, ⟨1, []⟩] as := by
  have hf := isDirectory_firstNode twoBytes_spec.1
  have hc := fileHolds_firstNode twoBytes_spec.2
  obtain ⟨s, ho⟩ := sysOpen_first resolve_twoBytes rfl
  obtain ⟨s', hrs⟩ := Session.sysReads_sysOpen twoBytes_ok resolve_twoBytes hf hc ho
    [⟨1, []⟩, ⟨1, []⟩]
  refine ⟨_, s, _, s', needsFormat_blankDisk, resolve_twoBytes, hf, hc, ho, hrs, ?_⟩
  rw [readsAsFile_fromStart_iff]
  rintro ⟨-, (h | h | ⟨-, h⟩), -⟩
  · exact absurd h (by decide)
  · exact absurd h (by decide)
  · exact absurd h (by decide)

/-- Byte `m` of the file with this inode, as its blocks hold it. -/
def fileByte (d : Disk) (k m : ℕ) : UInt8 :=
  (d ((inodeAt d k).block (m / 512)).toNat).get (m % 512)

/-- The writes `bs`, which returned `rets`, have left the file `k` and its descriptor as a
cursor that moves over the file leaves them. -/
structure WritesAccumulate (s : Session) (task fd k : ℕ) (bs : List (List UInt8))
    (rets : List ℤ) : Prop where
  returns : rets = bs.map fun b => (b.length : ℤ)
  offset : ∃ f, s.fdTable task fd = some f ∧ f.offset.toNat = bs.flatten.length
  bytes : ∀ m < bs.flatten.length, m < (inodeAt s.fs.io.disk k).size.toNat ∧
    fileByte s.fs.io.disk k m = bs.flatten.getD m 0

/-- Writes through a fresh descriptor all answer 0 and leave the cursor at 0. -/
theorem Session.sysWrites_sysOpen {s s' : Session} (hs : s.Ok) {task fd : ℕ} {path : CStr}
    {allocated : Bool} {N : VfsNode} (hN : s.resolve task path = some N)
    (hf : N.isDirectory = false) (ho : s.sysOpen task path allocated = ((fd : ℤ), s'))
    {bs : List (List UInt8)} (hbs : bs.flatten.length ≤ 30 * 512) :
    (s'.sysWrites task fd bs).1 = bs.map (fun _ => 0) ∧
      ((s'.sysWrites task fd bs).2.fdTable task fd).map File.offset = some 0 := by
  obtain ⟨hs', hio, hopen, hnode, hoff⟩ := Session.sysOpen_openOn hs hN ho
  rw [← hio] at hnode
  have hle : ∀ b ∈ bs, b.length ≤ 30 * 512 := fun b hb =>
    (List.Sublist.length_le (List.sublist_flatten_of_mem hb)).trans hbs
  obtain ⟨hrets, hoffs⟩ := Session.sysWrites_openOn hf bs hle hs' hopen hnode
  exact ⟨hrets, hoffs.trans hoff⟩

/-- **Writes one after another.**  Through a fresh descriptor they accumulate exactly when all
the buffers are empty. -/
theorem run_sequential_writes_iff (d : Disk) (hd : needsFormat d = true) (ops : List SessionOp)
    (task : ℕ) (path : CStr) (allocated : Bool) (N : VfsNode) (fd : ℕ) (s : Session)
    (hN : ((Session.init d).run ops).resolve task path = some N) (hf : N.isDirectory = false)
    (ho : ((Session.init d).run ops).sysOpen task path allocated = ((fd : ℤ), s))
    (bs : List (List UInt8)) (hbs : bs.flatten.length ≤ 30 * 512) :
    WritesAccumulate (s.sysWrites task fd bs).2 task fd N.inodeIdx.toNat bs
      (s.sysWrites task fd bs).1 ↔ ∀ b ∈ bs, b = [] := by
  have hok := ((Session.ok_init hd).run ops).1
  obtain ⟨hrets, hoff⟩ := Session.sysWrites_sysOpen hok hN hf ho hbs
  constructor
  · intro h b hb
    have hb0 := List.map_inj_left.1 (hrets.symm.trans h.returns) b hb
    exact List.length_eq_zero_iff.1 (by omega)
  · intro h
    have hnil : bs.flatten = [] := List.flatten_eq_nil_iff.2 h
    obtain ⟨f, hfd, hf0⟩ := Option.map_eq_some_iff.1 hoff
    refine ⟨?_, ⟨f, hfd, ?_⟩, fun m hm => ?_⟩
    · rw [hrets]
      exact List.map_congr_left fun b hb => by simp [h b hb]
    · rw [hf0, hnil]
      rfl
    · rw [hnil] at hm
      exact absurd hm (Nat.not_lt_zero m)

theorem run_sequential_writes_iff_oneFile : ∃ N s, needsFormat blankDisk = true ∧
    oneFile.resolve 0 firstPath = some N ∧ N.isDirectory = false ∧
    oneFile.sysOpen 0 firstPath true = (((3 : ℕ) : ℤ), s) ∧
    ([[], []] : List (List UInt8)).flatten.length ≤ 30 * 512 ∧
    (WritesAccumulate (s.sysWrites 0 3 [[], []]).2 0 3 N.inodeIdx.toNat [[], []]
      (s.sysWrites 0 3 [[], []]).1 ↔ ∀ b ∈ ([[], []] : List (List UInt8)), b = []) := by
  have hf := isDirectory_firstNode firstFile_oneFile
  obtain ⟨s, ho⟩ := sysOpen_first resolve_oneFile rfl
  have hbs : ([[], []] : List (List UInt8)).flatten.length ≤ 30 * 512 := by decide
  exact ⟨_, s, needsFormat_blankDisk, resolve_oneFile, hf, ho, hbs,
    run_sequential_writes_iff blankDisk needsFormat_blankDisk [.call (.create 0 (fileName 0))] 0
      firstPath true _ 3 s resolve_oneFile hf ho [[], []] hbs⟩

/-- A write of one byte answers 0. -/
theorem one_write_answers_zero : ∃ N s, needsFormat blankDisk = true ∧
    oneFile.resolve 0 firstPath = some N ∧ N.isDirectory = false ∧
    oneFile.sysOpen 0 firstPath true = (((3 : ℕ) : ℤ), s) ∧
    ¬ WritesAccumulate (s.sysWrites 0 3 [[7]]).2 0 3 N.inodeIdx.toNat [[7]]
      (s.sysWrites 0 3 [[7]]).1 := by
  have hf := isDirectory_firstNode firstFile_oneFile
  obtain ⟨s, ho⟩ := sysOpen_first resolve_oneFile rfl
  have hbs : ([[7]] : List (List UInt8)).flatten.length ≤ 30 * 512 := by decide
  obtain ⟨hrets, -⟩ := Session.sysWrites_sysOpen oneFile_ok resolve_oneFile hf ho hbs
  refine ⟨_, s, needsFormat_blankDisk, resolve_oneFile, hf, ho, fun h => ?_⟩
  have hret := hrets.symm.trans h.returns
  exact absurd hret (by decide)

end NosmeriOs.Vfs
